import Mathlib.Tactic.Common

/-!
# The graphics driver's interface

Image formats, colours and regions from `GraphicsDriver.h`, and the calls of a
`DexprOS_GraphicsDriver`.
-/

namespace DexprOS
namespace Graphics

section GraphicsDriver

/-- `DexprOS_GrImageFormat`; `max` counts the others. -/
inductive GrImageFormat where
  | rgb8
  | rgba8
  | max
deriving DecidableEq, Repr

structure GrGraphicsColor where
  r : UInt8
  g : UInt8
  b : UInt8
deriving DecidableEq, Repr

structure GrImageRegion where
  x : Int32
  y : Int32
  width : UInt32
  height : UInt32
deriving DecidableEq

/-- The arguments of `blitImageToFramebuffer`; `image` gives the image's bytes. -/
structure GrBlit where
  image : Nat → UInt8
  imageFormat : GrImageFormat
  imageX : Int32
  imageY : Int32
  imageRowStride : UInt32
  fbX : Int32
  fbY : Int32
  width : Int32
  height : Int32

/-- A call through the driver's function pointers. -/
inductive GraphicsCall where
  | swapBuffers
  | clearScreen (color : GrGraphicsColor)
  | clearScreenRegions (regions : List GrImageRegion) (color : GrGraphicsColor)
  | blitImageToFramebuffer (blit : GrBlit)

end GraphicsDriver

end Graphics
end DexprOS
