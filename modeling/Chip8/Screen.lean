import Chip8.Notice

/-!
The screen: 64 by 32 pixels, each lit or dark. Drawing uses raw points, which may lie off the
grid. A screen that wraps brings them back onto it; any other drops them, and remarks on the
first point that it drops.
-/

namespace Chip8

structure Cell where
  x : Fin 64
  y : Fin 32
  deriving DecidableEq

namespace Cell

/-- Cells are counted row by row, from the top left corner. -/
def index (cell : Cell) : Fin 2048 :=
  ⟨64 * cell.y.val + cell.x.val, by omega⟩

/-- The cell where a raw point lands when the edges are joined. -/
def wrapped (x y : Int) : Cell where
  x := ⟨(x % 64).toNat, by omega⟩
  y := ⟨(y % 32).toNat, by omega⟩

/-- Whether a raw point lies on the grid. -/
def OnGrid (x y : Int) : Prop :=
  (0 ≤ x ∧ x < 64) ∧ 0 ≤ y ∧ y < 32

instance (x y : Int) : Decidable (OnGrid x y) :=
  inferInstanceAs (Decidable ((_ ∧ _) ∧ _ ∧ _))

/-- The cell that a raw point means, if it means one. -/
def locate (wrap : Bool) (x y : Int) : Option Cell :=
  if wrap ∨ OnGrid x y then some (wrapped x y) else none

theorem index_injective {c d : Cell} (h : c.index = d.index) : c = d := by
  have hIndex : 64 * c.y.val + c.x.val = 64 * d.y.val + d.x.val := congrArg Fin.val h
  obtain ⟨⟨cx, hcx⟩, ⟨cy, hcy⟩⟩ := c
  obtain ⟨⟨dx, hdx⟩, ⟨dy, hdy⟩⟩ := d
  simp only at hIndex
  simp only [mk.injEq, Fin.mk.injEq]
  omega

theorem index_inj {c d : Cell} : c.index = d.index ↔ c = d :=
  ⟨index_injective, congrArg index⟩

end Cell

/-- The pixels, and how points off the grid are treated. -/
structure Screen where
  pixels : Vector Bool 2048
  wrap : Bool
  /-- Whether a dropped point has been remarked on. -/
  clipNoted : Bool
  deriving DecidableEq

namespace Screen

def blank (wrap : Bool) : Screen where
  pixels := Vector.replicate 2048 false
  wrap := wrap
  clipNoted := false

/-- Turns all pixels dark. What has been remarked on stays so. -/
def clear (screen : Screen) : Screen :=
  { screen with pixels := Vector.replicate 2048 false }

def pixel (screen : Screen) (cell : Cell) : Bool :=
  screen.pixels[cell.index]

def write (screen : Screen) (cell : Cell) (lit : Bool) : Screen :=
  { screen with pixels := screen.pixels.set cell.index lit }

/-- Drops a point, with a notice if it is the first. The notice shows it in 32 bits. -/
def clip (screen : Screen) (x y : Int) : Logged Screen :=
  if screen.clipNoted then pure screen
  else ⟨{ screen with clipNoted := true }, [.pixelClipped (Int32.ofInt x) (Int32.ofInt y)]⟩

/-- Sets the pixel at a raw point. -/
def setPixel (screen : Screen) (x y : Int) (lit : Bool) : Logged Screen :=
  match Cell.locate screen.wrap x y with
  | some cell => pure (screen.write cell lit)
  | none => screen.clip x y

/-- Whether the pixel at a point is lit; reading always wraps. -/
def lit (screen : Screen) (x y : Nat) : Bool :=
  screen.pixel (Cell.wrapped x y)

/-- Eight pixels in a row as a byte, the leftmost one as its highest bit. -/
def byteAt (screen : Screen) (x y : Nat) : UInt8 :=
  UInt8.ofNat ((List.range 8).foldl (fun byte k => 2 * byte + (screen.lit (x + k) y).toNat) 0)

def litCount (screen : Screen) : Nat :=
  screen.pixels.count true

theorem pixel_blank (wrap : Bool) (cell : Cell) : (blank wrap).pixel cell = false := by
  simp [blank, pixel]

theorem pixel_write (screen : Screen) (c d : Cell) (lit : Bool) :
    (screen.write c lit).pixel d = if c = d then lit else screen.pixel d := by
  have h : c.index.val = d.index.val ↔ c = d := by
    rw [← Cell.index_inj, Fin.ext_iff]
  simp only [write, pixel, Fin.getElem_fin, Vector.getElem_set, h]

end Screen

end Chip8
