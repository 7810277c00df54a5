import Chip8.Proofs.Screen.Flipping
import Chip8.Screen.Texture

/-!
The texture of a screen, byte by byte. It is made of blocks: a row of the screen is a block of 64
pixels, and a pixel is a block of three bytes. So the place of a byte tells the pixel that it
belongs to, and the texture shows the pixels and nothing else.
-/

namespace Chip8

/-- Of blocks of one size put one after another, the number of the block and the place in it tell
where an element is. -/
theorem getElem?_flatMap_of_length_eq {α β : Type} {f : α → List β} {size place : Nat}
    (hSize : ∀ a, (f a).length = size) (hPlace : place < size) (list : List α) (block : Nat) :
    (list.flatMap f)[size * block + place]? = list[block]?.bind fun a => (f a)[place]? := by
  induction list generalizing block with
  | nil => simp
  | cons a rest ih =>
      rw [List.flatMap_cons]
      cases block with
      | zero =>
          have hInside : size * 0 + place < (f a).length := by
            rw [hSize]
            omega
          rw [List.getElem?_append_left hInside, Nat.mul_zero, Nat.zero_add]
          rfl
      | succ block =>
          have hBehind : size * (block + 1) + place = (f a).length + (size * block + place) := by
            rw [hSize, Nat.mul_succ]
            omega
          rw [hBehind, List.getElem?_append_right (Nat.le_add_right _ _), Nat.add_sub_cancel_left,
            ih]
          rfl

theorem length_flatMap_of_length_eq {α β : Type} {f : α → List β} {size : Nat}
    (hSize : ∀ a, (f a).length = size) (list : List α) :
    (list.flatMap f).length = size * list.length := by
  induction list with
  | nil => rfl
  | cons a rest ih =>
      rw [List.flatMap_cons, List.length_append, hSize, ih, List.length_cons, Nat.mul_succ,
        Nat.add_comm]

theorem length_pixelBytes (lit : Bool) : (pixelBytes lit).length = 3 :=
  List.length_replicate

namespace Screen

/-- The pixels of a row, from the left. -/
def row (screen : Screen) (y : Nat) : List Bool :=
  (List.range 64).map fun x => screen.lit x y

/-- The rows of a screen, from the top. -/
def rows (screen : Screen) : List (List Bool) :=
  (List.range 32).map screen.row

theorem pixel_eq_lit (screen : Screen) (cell : Cell) :
    screen.pixel cell = screen.lit cell.x cell.y := by
  have hCell : Cell.wrapped (cell.x.val : Int) (cell.y.val : Int) = cell := by
    obtain ⟨⟨x, hx⟩, ⟨y, hy⟩⟩ := cell
    simp only [Cell.wrapped, Cell.mk.injEq, Fin.mk.injEq]
    omega
  rw [lit, hCell]

/-- Reading wraps around both edges. -/
theorem lit_mod (screen : Screen) (x y : Nat) :
    screen.lit (x % 64) (y % 32) = screen.lit x y := by
  have hCell : Cell.wrapped ((x % 64 : Nat) : Int) ((y % 32 : Nat) : Int) =
      Cell.wrapped (x : Int) (y : Int) := by
    simp only [Cell.wrapped, Cell.mk.injEq, Fin.mk.injEq]
    omega
  rw [lit, hCell, lit]

theorem getElem?_pixels (screen : Screen) {x y : Nat} (hx : x < 64) (hy : y < 32) :
    screen.pixels.toList[64 * y + x]? = some (screen.lit x y) := by
  have hPixel := screen.pixel_eq_lit ⟨⟨x, hx⟩, ⟨y, hy⟩⟩
  have hInside : 64 * y + x < 2048 := by omega
  rw [← hPixel, pixel]
  simp [Cell.index, hInside]

theorem getElem?_row (screen : Screen) {x : Nat} (hx : x < 64) (y : Nat) :
    (screen.row y)[x]? = some (screen.lit x y) := by
  simp [row, hx]

/-- The pixels are kept row by row. -/
theorem toList_pixels_eq_flatten_rows (screen : Screen) :
    screen.pixels.toList = screen.rows.flatten := by
  have hSize (y : Nat) : (screen.row y).length = 64 := by
    rw [row, List.length_map, List.length_range]
  rw [rows, ← List.flatMap_def]
  apply List.ext_getElem?
  intro place
  rw [← Nat.div_add_mod place 64,
    getElem?_flatMap_of_length_eq hSize (Nat.mod_lt place (by decide))]
  by_cases hRow : place / 64 < 32
  · rw [getElem?_pixels screen (Nat.mod_lt place (by decide)) hRow, List.getElem?_range hRow,
      Option.bind_some, getElem?_row screen (Nat.mod_lt place (by decide))]
  · -- Behind the last row nothing stands on either side.
    have hBehind : 2048 ≤ 64 * (place / 64) + place % 64 := by omega
    rw [List.getElem?_eq_none (by simpa using hBehind),
      List.getElem?_eq_none (by simpa using Nat.not_lt.mp hRow), Option.bind_none]

theorem length_texture (screen : Screen) : screen.texture.length = 6144 := by
  rw [texture, length_flatMap_of_length_eq length_pixelBytes, Vector.length_toList]

theorem getElem?_texture (screen : Screen) {x y channel : Nat} (hx : x < 64) (hy : y < 32)
    (hChannel : channel < 3) :
    screen.texture[3 * (64 * y + x) + channel]? =
      some (if screen.lit x y then 0xFF else 0x00) := by
  rw [texture, getElem?_flatMap_of_length_eq length_pixelBytes hChannel,
    getElem?_pixels screen hx hy, Option.bind_some, pixelBytes, List.getElem?_replicate_of_lt hChannel]

/-- Two textures with the same bytes show the same pixels. -/
theorem lit_eq_of_texture_eq {screen other : Screen} (h : screen.texture = other.texture)
    (x y : Nat) : screen.lit x y = other.lit x y := by
  have hx : x % 64 < 64 := Nat.mod_lt x (by decide)
  have hy : y % 32 < 32 := Nat.mod_lt y (by decide)
  have hByte := screen.getElem?_texture hx hy (by decide : 0 < 3)
  rw [h, other.getElem?_texture hx hy (by decide), lit_mod, lit_mod] at hByte
  revert hByte
  cases screen.lit x y <;> cases other.lit x y <;> decide

/-- A texture is the rows of a screen, from the top, each pixel turned into its bytes. It has three
bytes for each of the 2048 pixels. The bytes of the pixel at (x, y) stand at three times `64 y + x`
and right behind it, all full if the pixel is lit and all empty if it is dark. So screens have the
same texture exactly if they have the same pixels. -/
theorem texture_encodes_pixels (screen : Screen) :
    screen.texture = screen.rows.flatten.flatMap pixelBytes ∧
    screen.texture.length = 6144 ∧
    (∀ (x : Fin 64) (y : Fin 32) (channel : Fin 3),
      screen.texture[3 * (64 * y.val + x.val) + channel.val]? =
        some (if screen.lit x y then 0xFF else 0x00)) ∧
    ∀ other : Screen, screen.texture = other.texture ↔ ∀ x y, screen.lit x y = other.lit x y := by
  refine ⟨?_, screen.length_texture, ?_, fun other => ⟨lit_eq_of_texture_eq, fun hLit => ?_⟩⟩
  · rw [texture, toList_pixels_eq_flatten_rows]
  · intro x y channel
    exact screen.getElem?_texture x.isLt y.isLt channel.isLt
  · have hPixels : screen.pixels = other.pixels :=
      pixels_eq_iff.mpr fun cell => by rw [pixel_eq_lit, pixel_eq_lit, hLit]
    rw [texture, texture, hPixels]

end Screen

end Chip8
