import Chip8.Screen

/-!
Windows and textures. A window shows the screen as an image of three bytes a pixel, row by row, and
each pixel of it becomes a square of `scale` by `scale`.
-/

namespace Chip8

/-- The bytes of a pixel: red, green and blue, all full or all empty. -/
def pixelBytes (lit : Bool) : List UInt8 :=
  List.replicate 3 (if lit then 0xFF else 0x00)

def Screen.texture (screen : Screen) : List UInt8 :=
  screen.pixels.toList.flatMap pixelBytes

/-- Width and height of a window. There is none if a side has no 32-bit length. -/
def windowSize (scale : UInt32) : Option (UInt32 × UInt32) :=
  if 64 * scale.toNat < UInt32.size then some (64 * scale, 32 * scale) else none

end Chip8
