/-!
The font. Memory starts with a glyph for each hexadecimal digit, five bytes each; a byte is a row
of eight pixels, of which a glyph uses the left four.
-/

namespace Chip8

/-- Bytes of a glyph. -/
def glyphSize : UInt16 := 5

/-- The glyphs of the digits `0` to `F`, one after another. -/
def font : List UInt8 := [
  0xF0, 0x90, 0x90, 0x90, 0xF0,
  0x20, 0x60, 0x20, 0x20, 0x70,
  0xF0, 0x10, 0xF0, 0x80, 0xF0,
  0xF0, 0x10, 0xF0, 0x10, 0xF0,
  0x90, 0x90, 0xF0, 0x10, 0x10,
  0xF0, 0x80, 0xF0, 0x10, 0xF0,
  0xF0, 0x80, 0xF0, 0x90, 0xF0,
  0xF0, 0x10, 0x20, 0x40, 0x40,
  0xF0, 0x90, 0xF0, 0x90, 0xF0,
  0xF0, 0x90, 0xF0, 0x10, 0xF0,
  0xF0, 0x90, 0xF0, 0x90, 0x90,
  0xE0, 0x90, 0xE0, 0x90, 0xE0,
  0xF0, 0x80, 0x80, 0x80, 0xF0,
  0xE0, 0x90, 0x90, 0x90, 0xE0,
  0xF0, 0x80, 0xF0, 0x80, 0xF0,
  0xF0, 0x80, 0xF0, 0x80, 0x80]

/-- Where the glyph of a digit starts; only the low nibble of the digit counts. -/
def glyphAddress (digit : UInt8) : UInt16 :=
  (digit % 16).toUInt16 * glyphSize

theorem length_font : font.length = 80 := rfl

end Chip8
