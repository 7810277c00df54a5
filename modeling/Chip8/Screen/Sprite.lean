import Chip8.Memory
import Chip8.Screen

/-!
Sprites. A sprite is up to 255 bytes in memory, each a row of eight pixels. Drawing one flips the
screen under every lit pixel of it, and tells whether a lit pixel was turned dark.
-/

namespace Chip8

/-- A screen after drawing, and whether a lit pixel was turned dark on the way. -/
structure Drawn where
  screen : Screen
  collision : Bool

namespace Drawn

/-- Flips the pixel at a raw point. -/
def flip (drawn : Drawn) (x y : Int) : Logged Drawn :=
  match Cell.locate drawn.screen.wrap x y with
  | some cell =>
    let wasLit := drawn.screen.pixel cell
    pure ⟨drawn.screen.write cell (!wasLit), drawn.collision || wasLit⟩
  | none => do
    let screen ← drawn.screen.clip x y
    return ⟨screen, drawn.collision⟩

def flipAll (drawn : Drawn) : List (Int × Int) → Logged Drawn
  | [] => pure drawn
  | (x, y) :: rest => do
    let drawn ← drawn.flip x y
    drawn.flipAll rest

end Drawn

/-- The lit pixels of a row, counted from the left; the highest bit is the leftmost pixel. -/
def litBits (byte : UInt8) : List Nat :=
  (List.range 8).filter fun k => byte.toNat.testBit (7 - k)

/-- The raw points of the lit pixels of a row that starts at (x, y). -/
def rowPoints (byte : UInt8) (x y : Int) : List (Int × Int) :=
  (litBits byte).map fun k : Nat => (x + (k : Int), y)

namespace Screen

/-- Draws the rows of a sprite, top to bottom, each one read from the next address. -/
def drawRows (memory : Memory) (x : Int) : Nat → Int → UInt16 → Drawn → Logged Drawn
  | 0, _, _, drawn => pure drawn
  | rows + 1, y, address, drawn => do
    let byte ← memory.get address
    let drawn ← drawn.flipAll (rowPoints byte x y)
    drawRows memory x rows (y + 1) (address + 1) drawn

/-- Draws the sprite at an address with its top left corner at (x, y). -/
def draw (screen : Screen) (memory : Memory) (x y : Int) (address : UInt16) (rows : Nat) :
    Logged Drawn :=
  drawRows memory x rows y address ⟨screen, false⟩

end Screen

end Chip8
