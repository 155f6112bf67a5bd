import DexprOS.Drivers.Graphics.GraphicsDriver
import DexprOS.Library.Damage

/-!
# The CPU graphics driver

Drawing into the render framebuffer and copying from it to the main framebuffer, from
`CpuGraphicsDriver.c`.  A framebuffer is its bytes by their offset from its start, which
is an integer because C would let a write leave the buffer on either side.

The arithmetic on 32-bit coordinates wraps around, as the machine's does.
-/

namespace DexprOS
namespace Graphics

section DriverData

inductive CpuGrFramebufferFormat where
  | rgb8Reserved8
  | bgr8Reserved8
  | max
deriving DecidableEq, Repr

inductive CpuGrSwapBufferOp where
  | none
  | full
  | region
deriving DecidableEq, Repr

structure CpuGrSwapBufferInfo where
  swapOp : CpuGrSwapBufferOp
  regionStartX : UInt32
  regionStartY : UInt32
  regionWidth : UInt32
  regionHeight : UInt32
deriving DecidableEq

abbrev Framebuffer :=
  Int → UInt8

structure CpuGrGraphicsDrvData where
  presentationWidth : UInt32
  presentationHeight : UInt32
  presentationPixelBytes : UInt32
  presentationPixelStride : UInt32
  mainFramebuffer : Framebuffer
  mainFramebufferSize : Nat
  renderFramebuffer : Framebuffer
  framebufferFormat : CpuGrFramebufferFormat
  swapBufferInfo : CpuGrSwapBufferInfo

end DriverData

section Swapping

def cpuGrMarkScreenRegionForSwapping (x y width height : UInt32) (info : CpuGrSwapBufferInfo) :
    CpuGrSwapBufferInfo :=
  match info.swapOp with
  | .full => info
  | .region =>
      let oldStartX := info.regionStartX
      let oldStartY := info.regionStartY
      let oldEndX := oldStartX + info.regionWidth
      let oldEndY := oldStartY + info.regionHeight
      let endX := x + width
      let endY := y + height
      let newStartX := if oldStartX < x then oldStartX else x
      let newStartY := if oldStartY < y then oldStartY else y
      let newEndX := if oldEndX > endX then oldEndX else endX
      let newEndY := if oldEndY > endY then oldEndY else endY
      { info with
        regionStartX := newStartX
        regionStartY := newStartY
        regionWidth := newEndX - newStartX
        regionHeight := newEndY - newStartY }
  | .none =>
      { regionStartX := x
        regionStartY := y
        regionWidth := width
        regionHeight := height
        swapOp := .region }

/-- `memcpy` of `count` bytes between two buffers, from one offset to the same offset. -/
def copyBytes (src : Framebuffer) (offset : Int) (count : Nat) (dst : Framebuffer) :
    Framebuffer :=
  fun i => if offset ≤ i ∧ i < offset + count then src i else dst i

/-- The loop over the rows of the region. -/
def swapRegionRows (d : CpuGrGraphicsDrvData) : Framebuffer :=
  let rowBytes := (d.presentationPixelStride * d.presentationPixelBytes).toNat
  let regionRowBytes := (d.swapBufferInfo.regionWidth * d.presentationPixelBytes).toNat
  let offset := d.swapBufferInfo.regionStartY.toNat * rowBytes +
    (d.swapBufferInfo.regionStartX * d.presentationPixelBytes).toNat
  (List.range d.swapBufferInfo.regionHeight.toNat).foldl
    (fun main h => copyBytes d.renderFramebuffer (offset + h * rowBytes : Nat) regionRowBytes main)
    d.mainFramebuffer

def cpuGrSwapBuffers (d : CpuGrGraphicsDrvData) : CpuGrGraphicsDrvData :=
  { d with
    mainFramebuffer :=
      match d.swapBufferInfo.swapOp with
      | .full => copyBytes d.renderFramebuffer 0 d.mainFramebufferSize d.mainFramebuffer
      | .region => swapRegionRows d
      | .none => d.mainFramebuffer
    swapBufferInfo := { d.swapBufferInfo with swapOp := .none } }

end Swapping

section Clearing

/-- Writes the first bytes of a pixel. -/
def writePixel (offset : Int) (bytes : List UInt8) (fb : Framebuffer) : Framebuffer :=
  fun i => if offset ≤ i then bytes[(i - offset).toNat]?.getD (fb i) else fb i

/-- The loops of the clearing functions, from the byte at `base` on. -/
def clearPixels (base : Int) (byteStride bytesPerPixel width height : UInt32)
    (pixel : List UInt8) (fb : Framebuffer) : Framebuffer :=
  Damage.forEach width.toNat height.toNat
    (fun h w =>
      writePixel
        (base + (h.toUInt32 * byteStride).toNat + (w.toUInt32 * bytesPerPixel).toNat) pixel)
    fb

/-- What the two functions that clear the screen have in common. -/
def clearScreenPixels (d : CpuGrGraphicsDrvData) (pixel : List UInt8) : CpuGrGraphicsDrvData :=
  let byteStride := d.presentationPixelStride * d.presentationPixelBytes
  { d with
    renderFramebuffer :=
      clearPixels 0 byteStride d.presentationPixelBytes d.presentationWidth
        d.presentationHeight pixel d.renderFramebuffer }

def cpuGrClearScreenRGB (d : CpuGrGraphicsDrvData) (r g b : UInt8) : CpuGrGraphicsDrvData :=
  clearScreenPixels d [r, g, b, 0]

def cpuGrClearScreenBGR (d : CpuGrGraphicsDrvData) (r g b : UInt8) : CpuGrGraphicsDrvData :=
  clearScreenPixels d [b, g, r, 0]

def cpuGrGraphicsClearScreen (color : GrGraphicsColor) (d : CpuGrGraphicsDrvData) :
    CpuGrGraphicsDrvData :=
  let d := { d with swapBufferInfo := { d.swapBufferInfo with swapOp := .full } }
  match d.framebufferFormat with
  | .rgb8Reserved8 => cpuGrClearScreenRGB d color.r color.g color.b
  | .bgr8Reserved8 => cpuGrClearScreenBGR d color.r color.g color.b
  | .max => d

/-- What the two functions that clear a region have in common. -/
def clearRegionPixels (d : CpuGrGraphicsDrvData) (x y width height : UInt32)
    (pixel : List UInt8) : CpuGrGraphicsDrvData :=
  let byteStride := d.presentationPixelStride * d.presentationPixelBytes
  let regionOffset : Nat := (y * byteStride).toNat + (x * d.presentationPixelBytes).toNat
  { d with
    renderFramebuffer :=
      clearPixels regionOffset byteStride d.presentationPixelBytes width height pixel
        d.renderFramebuffer }

def cpuGrClearScreenRegionRGB (d : CpuGrGraphicsDrvData) (x y width height : UInt32)
    (r g b : UInt8) : CpuGrGraphicsDrvData :=
  clearRegionPixels d x y width height [r, g, b, 0]

def cpuGrClearScreenRegionBGR (d : CpuGrGraphicsDrvData) (x y width height : UInt32)
    (r g b : UInt8) : CpuGrGraphicsDrvData :=
  clearRegionPixels d x y width height [b, g, r, 0]

/-- Clips one axis of a region: first coordinate and size of what is on the screen, or
`none` where the loop continues with the next region. -/
def clipRegionAxis (pos : Int32) (size presentation : UInt32) : Option (UInt32 × UInt32) :=
  let start := if pos ≥ 0 then pos.toUInt32 else 0
  if start ≥ presentation then none
  else if pos < 0 ∧ (-pos).toUInt32 ≥ size then none
  else
    let size := if pos < 0 then size - (-pos).toUInt32 else size
    some (start, if start + size > presentation then presentation - start else size)

/-- The loop's body; the sizes are those of the first region in every iteration. -/
def clearScreenRegion (first : GrImageRegion) (color : GrGraphicsColor)
    (d : CpuGrGraphicsDrvData) (region : GrImageRegion) : CpuGrGraphicsDrvData :=
  match clipRegionAxis region.x first.width d.presentationWidth,
    clipRegionAxis region.y first.height d.presentationHeight with
  | some (startX, width), some (startY, height) =>
      let d := { d with
        swapBufferInfo :=
          cpuGrMarkScreenRegionForSwapping startX startY width height d.swapBufferInfo }
      match d.framebufferFormat with
      | .rgb8Reserved8 =>
          cpuGrClearScreenRegionRGB d startX startY width height color.r color.g color.b
      | .bgr8Reserved8 =>
          cpuGrClearScreenRegionBGR d startX startY width height color.r color.g color.b
      | .max => d
  | _, _ => d

def cpuGrGraphicsClearScreenRegions (regions : List GrImageRegion) (color : GrGraphicsColor)
    (d : CpuGrGraphicsDrvData) : CpuGrGraphicsDrvData :=
  match regions with
  | [] => d
  | first :: _ => regions.foldl (clearScreenRegion first color) d

end Clearing

section Blitting

/-- The loops of the blitting functions.  `pixel` gives the first bytes of a pixel of the
framebuffer from the bytes of the image's pixel and the old ones. -/
def blitPixels (srcPixelBytes : Int32)
    (pixel : (Nat → UInt8) → (Nat → UInt8) → List UInt8)
    (image : Nat → UInt8) (imageX imageY : Int32) (imageRowStride : UInt32)
    (fbX fbY : Int32) (fbRowStride : UInt32) (width height : Int32) (fb : Framebuffer) :
    Framebuffer :=
  let srcBase : Int := (imageY.toUInt32 * imageRowStride).toNat + (imageX * srcPixelBytes).toInt
  let dstBase : Int := (fbY.toUInt32 * fbRowStride).toNat + (fbX * 4).toInt
  Damage.forEach width.toInt.toNat height.toInt.toNat
    (fun h w fb =>
      let srcPixel : Int := srcBase + (h.toUInt32 * imageRowStride).toNat +
        (Int32.ofNat w * srcPixelBytes).toInt
      let dstPixel : Int := dstBase + (h.toUInt32 * fbRowStride).toNat +
        (Int32.ofNat w * 4).toInt
      writePixel dstPixel
        (pixel (fun k => image (srcPixel + k).toNat) fun k => fb (dstPixel + k)) fb)
    fb

-- `blend source alpha destination` stands for the floating-point mixture of two channels.
variable (blend : UInt8 → UInt8 → UInt8 → UInt8)

def cpuGrGraphicsBlitRGB8ToRGB8R :=
  blitPixels 3 fun src _ => [src 0, src 1, src 2]

def cpuGrGraphicsBlitRGBA8ToRGB8R :=
  blitPixels 4 fun src dst =>
    [blend (src 0) (src 3) (dst 0), blend (src 1) (src 3) (dst 1), blend (src 2) (src 3) (dst 2)]

def cpuGrGraphicsBlitRGB8ToBGR8R :=
  blitPixels 3 fun src _ => [src 2, src 1, src 0]

def cpuGrGraphicsBlitRGBA8ToBGR8R :=
  blitPixels 4 fun src dst =>
    [blend (src 2) (src 3) (dst 0), blend (src 1) (src 3) (dst 1), blend (src 0) (src 3) (dst 2)]

/-- Clips one axis of a blit: first coordinate in the image and in the framebuffer, and
the size. -/
def clipBlitAxis (image fb size : Int32) (presentation : UInt32) : Int32 × Int32 × Int32 :=
  let blitImage := if fb < 0 then image - fb else image
  let blitSize := if fb < 0 then size + fb else size
  let blitFb := if fb < 0 then 0 else fb
  (blitImage, blitFb,
    if blitFb + blitSize > presentation.toInt32 then presentation.toInt32 - blitFb else blitSize)

/-- The blit of a clipped rectangle into the render framebuffer. -/
def blitToRender (blit : GrBlit) (imageX imageY fbX fbY width height : Int32)
    (d : CpuGrGraphicsDrvData) : Framebuffer :=
  let fbRowStride := d.presentationPixelStride * 4
  match d.framebufferFormat, blit.imageFormat with
  | .rgb8Reserved8, .rgb8 =>
      cpuGrGraphicsBlitRGB8ToRGB8R blit.image imageX imageY blit.imageRowStride fbX fbY
        fbRowStride width height d.renderFramebuffer
  | .rgb8Reserved8, .rgba8 =>
      cpuGrGraphicsBlitRGBA8ToRGB8R blend blit.image imageX imageY blit.imageRowStride fbX fbY
        fbRowStride width height d.renderFramebuffer
  | .bgr8Reserved8, .rgb8 =>
      cpuGrGraphicsBlitRGB8ToBGR8R blit.image imageX imageY blit.imageRowStride fbX fbY
        fbRowStride width height d.renderFramebuffer
  | .bgr8Reserved8, .rgba8 =>
      cpuGrGraphicsBlitRGBA8ToBGR8R blend blit.image imageX imageY blit.imageRowStride fbX fbY
        fbRowStride width height d.renderFramebuffer
  | _, _ => d.renderFramebuffer

def cpuGrGraphicsBlitImageToFramebuffer (blit : GrBlit) (d : CpuGrGraphicsDrvData) :
    CpuGrGraphicsDrvData :=
  let (blitImageX, blitFbX, blitWidth) :=
    clipBlitAxis blit.imageX blit.fbX blit.width d.presentationWidth
  let (blitImageY, blitFbY, blitHeight) :=
    clipBlitAxis blit.imageY blit.fbY blit.height d.presentationHeight
  if blitImageX < 0 ∨ blitImageY < 0 ∨ blitWidth < 0 ∨ blitHeight < 0 then d
  else if blitFbX ≥ d.presentationWidth.toInt32 ∨ blitFbY ≥ d.presentationHeight.toInt32 then d
  else
    let d := { d with
      swapBufferInfo :=
        cpuGrMarkScreenRegionForSwapping blitFbX.toUInt32 blitFbY.toUInt32 blitWidth.toUInt32
          blitHeight.toUInt32 d.swapBufferInfo }
    { d with
      renderFramebuffer :=
        blitToRender blend blit blitImageX blitImageY blitFbX blitFbY blitWidth blitHeight d }

/-- A call through the driver's function pointers. -/
def runGraphicsCall : GraphicsCall → CpuGrGraphicsDrvData → CpuGrGraphicsDrvData
  | .swapBuffers => cpuGrSwapBuffers
  | .clearScreen color => cpuGrGraphicsClearScreen color
  | .clearScreenRegions regions color => cpuGrGraphicsClearScreenRegions regions color
  | .blitImageToFramebuffer blit => cpuGrGraphicsBlitImageToFramebuffer blend blit

end Blitting

end Graphics
end DexprOS
