import DexprOS.Drivers.Graphics.CpuGraphicsClearing

/-!
# The start of the graphics driver

`DexprOS_InitCpuGraphicsDriver` takes over the framebuffer of the firmware.  Nothing is known
of the new render framebuffer, so the framebuffers need not agree before the screen has been
cleared once.

Main facts:
* `addressable_init`: the driver's data in a mode whose frame has addressable bytes;
* `swapTracked_clearScreen`: clearing the screen starts the tracking;
* `color_clearScreen`: it shows the colour in every visible pixel.
-/

namespace DexprOS
namespace Graphics

open Damage Painting Word32

section Init

/-- `EFI_GRAPHICS_PIXEL_FORMAT`. -/
inductive EfiGraphicsPixelFormat where
  | pixelRedGreenBlueReserved8BitPerColor
  | pixelBlueGreenRedReserved8BitPerColor
  | pixelBitMask
  | pixelBltOnly
  | pixelFormatMax
deriving DecidableEq, Repr

/-- The mode of an `EFI_GRAPHICS_OUTPUT_PROTOCOL`, with what its framebuffer holds. -/
structure EfiGraphicsOutputMode where
  horizontalResolution : UInt32
  verticalResolution : UInt32
  pixelFormat : EfiGraphicsPixelFormat
  pixelsPerScanLine : UInt32
  frameBuffer : Framebuffer
  frameBufferSize : UInt64

/-- `DexprOS_CpuGraphicsDrvInitError`, without the success. -/
inductive CpuGraphicsDrvInitError where
  | unsupportedFormat
  | memoryError
deriving DecidableEq, Repr

/-- The two pools are what `AllocatePool` gives, or `none` where it fails.  The format is left
as it was in the memory of the driver's data if the mode's format is not known. -/
def initCpuGraphicsDriver (mode : EfiGraphicsOutputMode)
    (driverMemory : Option CpuGrFramebufferFormat) (backbufferMemory : Option Framebuffer) :
    Except CpuGraphicsDrvInitError CpuGrGraphicsDrvData :=
  if mode.pixelFormat = .pixelBltOnly ∨ mode.pixelFormat = .pixelBitMask then
    .error .unsupportedFormat
  else
    match driverMemory, backbufferMemory with
    | some oldFormat, some backbuffer =>
        .ok {
          presentationWidth := mode.horizontalResolution
          presentationHeight := mode.verticalResolution
          presentationPixelBytes := 4
          presentationPixelStride := mode.pixelsPerScanLine
          mainFramebuffer := mode.frameBuffer
          mainFramebufferSize := mode.frameBufferSize.toNat
          renderFramebuffer := backbuffer
          framebufferFormat :=
            match mode.pixelFormat with
            | .pixelRedGreenBlueReserved8BitPerColor => .rgb8Reserved8
            | .pixelBlueGreenRedReserved8BitPerColor => .bgr8Reserved8
            | _ => oldFormat
          swapBufferInfo := ⟨.none, 0, 0, 0, 0⟩ }
    | _, _ => .error .memoryError

/-- The bytes of the mode's frame are in the framebuffer, and 32 bits address them. -/
structure EfiGraphicsOutputMode.Addressable (mode : EfiGraphicsOutputMode) : Prop where
  width_le : mode.horizontalResolution.toNat ≤ mode.pixelsPerScanLine.toNat
  row_lt : mode.pixelsPerScanLine.toNat * 4 < 2147483648
  frame_lt : mode.verticalResolution.toNat * (mode.pixelsPerScanLine.toNat * 4) < 4294967296
  frame_le : mode.verticalResolution.toNat * (mode.pixelsPerScanLine.toNat * 4) ≤
    mode.frameBufferSize.toNat

/-- A mode of four bytes for each pixel. -/
def EfiGraphicsOutputMode.Supported (mode : EfiGraphicsOutputMode) : Prop :=
  mode.pixelFormat = .pixelRedGreenBlueReserved8BitPerColor ∨
    mode.pixelFormat = .pixelBlueGreenRedReserved8BitPerColor

variable {mode : EfiGraphicsOutputMode} {driverMemory : Option CpuGrFramebufferFormat}
variable {backbufferMemory : Option Framebuffer} {d : CpuGrGraphicsDrvData}

/-- What a start that succeeds leaves. -/
theorem init_cases
    (hinit : initCpuGraphicsDriver mode driverMemory backbufferMemory = .ok d) :
    d.presentationWidth = mode.horizontalResolution ∧
      d.presentationHeight = mode.verticalResolution ∧ d.presentationPixelBytes = 4 ∧
      d.presentationPixelStride = mode.pixelsPerScanLine ∧
      d.mainFramebufferSize = mode.frameBufferSize.toNat ∧
      (mode.Supported → d.framebufferFormat ≠ .max) := by
  unfold initCpuGraphicsDriver at hinit
  split at hinit
  · cases hinit
  · split at hinit
    · cases hinit
      refine ⟨rfl, rfl, rfl, rfl, rfl, ?_⟩
      rintro (hformat | hformat) <;> simp [hformat]
    · cases hinit

theorem addressable_init
    (hmode : mode.Addressable)
    (hinit : initCpuGraphicsDriver mode driverMemory backbufferMemory = .ok d) :
    d.Addressable := by
  obtain ⟨hwidth, hheight, hbytes, hstride, hsize, -⟩ := init_cases hinit
  constructor
  · exact hbytes
  · rw [hwidth, hstride]
    exact hmode.width_le
  · rw [hstride]
    exact hmode.row_lt
  · rw [hheight, hstride]
    exact hmode.frame_lt
  · rw [hheight, hstride, hsize]
    exact hmode.frame_le

end Init

section FirstClearing

variable {d : CpuGrGraphicsDrvData}

/-- Pixels whose bytes can be addressed have offsets of 31 bits in their row. -/
theorem CpuGrGraphicsDrvData.Addressable.frame_fits
    (hd : d.Addressable) :
    d.frame.Fits where
  pixelBytes_eq := hd.pixelBytes_eq
  row_le := by
    have hwidth := hd.width_le
    have hrow := hd.row_lt
    simp only [CpuGrGraphicsDrvData.frame]
    omega

/-- Until the next swap, clearing the screen makes up for whatever was drawn before. -/
theorem swapTracked_clearScreen
    (hd : d.Addressable) (color : GrGraphicsColor) :
    SwapTracked (cpuGrGraphicsClearScreen color d) := by
  have hfull (fb : Framebuffer) : SwapTracked { d with
      swapBufferInfo := { d.swapBufferInfo with swapOp := .full }
      renderFramebuffer := fb } :=
    { pixelBytes_eq := hd.pixelBytes_eq
      width_le := hd.width_le
      row_lt := hd.row_lt
      frame_lt := hd.frame_lt
      frame_le := hd.frame_le
      within := fun hop => by cases hop
      tracks := fun _ _ _ => trivial }
  unfold cpuGrGraphicsClearScreen
  dsimp only
  split
  · exact hfull _
  · exact hfull _
  · exact hfull _

theorem clearScreen_frame
    (color : GrGraphicsColor) (d : CpuGrGraphicsDrvData) :
    (cpuGrGraphicsClearScreen color d).frame = d.frame := by
  unfold cpuGrGraphicsClearScreen
  dsimp only
  split <;> rfl

/-- The loops of clearing the screen, in a known pixel format. -/
theorem renderFramebuffer_clearScreen
    (hformat : d.framebufferFormat ≠ .max) (color : GrGraphicsColor) :
    (cpuGrGraphicsClearScreen color d).renderFramebuffer =
      clearPixels 0 (d.presentationPixelStride * d.presentationPixelBytes)
        d.presentationPixelBytes d.presentationWidth d.presentationHeight
        (clearedBytes d.framebufferFormat color) d.renderFramebuffer := by
  unfold cpuGrGraphicsClearScreen
  dsimp only
  cases h : d.framebufferFormat with
  | rgb8Reserved8 => rfl
  | bgr8Reserved8 => rfl
  | max => exact absurd h hformat

theorem color_clearScreen
    (hd : d.Addressable) (hformat : d.framebufferFormat ≠ .max) (color : GrGraphicsColor)
    {p : Nat × Nat} (hp : p ∈ d.visible) :
    (cpuGrGraphicsClearScreen color d).color p = color := by
  have hbox : (wordBox 0 0 d.presentationWidth d.presentationHeight).Within
      d.presentationWidth.toNat d.presentationHeight.toNat := by
    simp [wordBox, Box.Within]
  have hlength : (clearedBytes d.framebufferFormat color).length = 4 := by
    cases h : d.framebufferFormat with
    | rgb8Reserved8 => rfl
    | bgr8Reserved8 => rfl
    | max => exact absurd h hformat
  have hfills := (clearPixels_fills_box hd hbox hlength).fills d.renderFramebuffer trivial
    ⟨p, hp⟩ (by simpa [wordBox, Box.cells] using And.intro hp.1 hp.2)
  simp only [UInt32.zero_mul, UInt32.toNat_zero, Nat.add_zero, Nat.cast_zero] at hfills
  rw [color_of_frame (clearScreen_frame color d), renderFramebuffer_clearScreen hformat]
  rw [CpuGrGraphicsDrvData.shows] at hfills
  rw [hfills]
  exact pixelColor_clearedBytes hformat color

end FirstClearing

section Monitor

variable {d : CpuGrGraphicsDrvData}

/-- The colour of a pixel of the screen that the monitor shows. -/
def CpuGrGraphicsDrvData.mainColor (d : CpuGrGraphicsDrvData) (p : Nat × Nat) :
    GrGraphicsColor :=
  pixelColor d.framebufferFormat fun i => d.mainFramebuffer (d.pixelOffset p + i : Nat)

/-- The monitor shows what has been drawn where the framebuffers agree. -/
theorem mainColor_of_agree
    (hagree : VisiblePixelsAgree d) {p : Nat × Nat} (hp : p ∈ d.visible) :
    d.mainColor p = d.color p := by
  refine pixelColor_congr.mpr fun i hi => ?_
  exact congrFun (hagree p hp) ⟨i, by omega⟩

end Monitor

end Graphics
end DexprOS
