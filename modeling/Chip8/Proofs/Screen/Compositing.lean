import Chip8.Proofs.Screen.Flipping
import Mathlib.Data.Finset.Prod
import Mathlib.Data.Finset.Range

/-!
Drawing a sprite as exclusive or. A cell ends up as it was, changed once for every lit pixel of the
sprite that comes to lie on it; there is a collision if one of these changes turns it dark.
-/

namespace Chip8

/-- Whether a sprite is lit in a row and a column; the leftmost column is the highest bit of a
byte. -/
def spriteLit (memory : Memory) (address : UInt16) (row column : Nat) : Bool :=
  (memory.get (address + UInt16.ofNat row)).value.toNat.testBit (7 - column)

/-- Whether a raw point lies on a cell, with the edges of the screen joined or not. -/
def Cell.IsUnder (cell : Cell) (wrap : Bool) (x y : Int) : Prop :=
  if wrap then x % 64 = cell.x.val ∧ y % 32 = cell.y.val else x = cell.x.val ∧ y = cell.y.val

instance (cell : Cell) (wrap : Bool) (x y : Int) : Decidable (cell.IsUnder wrap x y) :=
  inferInstanceAs (Decidable (if wrap then _ ∧ _ else _ ∧ _))

/-- How many lit pixels of a sprite with its top left corner at (x, y) come to lie on a cell. -/
def coverage (wrap : Bool) (memory : Memory) (x y : Int) (address : UInt16) (rows : Nat)
    (cell : Cell) : Nat :=
  ((Finset.range rows ×ˢ Finset.range 8).filter fun place : Nat × Nat =>
    spriteLit memory address place.1 place.2 = true ∧
      cell.IsUnder wrap (x + (place.2 : Int)) (y + (place.1 : Int))).card

theorem Cell.locate_eq_some_iff {wrap : Bool} {x y : Int} {cell : Cell} :
    locate wrap x y = some cell ↔ cell.IsUnder wrap x y := by
  obtain ⟨⟨cx, hx⟩, ⟨cy, hy⟩⟩ := cell
  cases wrap with
  | true =>
      simp only [locate, wrapped, IsUnder, true_or, if_true, Option.some.injEq, mk.injEq,
        Fin.mk.injEq]
      omega
  | false =>
      simp only [locate, wrapped, IsUnder, OnGrid, Bool.false_eq_true, false_or, if_false,
        Option.ite_none_right_eq_some, Option.some.injEq, mk.injEq, Fin.mk.injEq]
      omega

/-- Counting places in a sprite is counting row by row. -/
theorem card_filter_places (rows : Nat) (p : Nat × Nat → Prop) [DecidablePred p] :
    ((Finset.range rows ×ˢ Finset.range 8).filter p).card =
      ((List.range rows).flatMap fun row => (List.range 8).map (Prod.mk row)).countP (p ·) := by
  rw [Finset.card_def, Finset.filter_val, Finset.product_val, Finset.range_val, Finset.range_val,
    ← Multiset.countP_eq_card_filter, Multiset.range, Multiset.range, Multiset.coe_product,
    Multiset.coe_countP]
  rfl

theorem hits_spritePoints (wrap : Bool) (memory : Memory) (x y : Int) (address : UInt16)
    (rows : Nat) (cell : Cell) :
    hits wrap (spritePoints memory x y address rows) cell =
      coverage wrap memory x y address rows cell := by
  rw [coverage, card_filter_places, hits, spritePoints, List.countP_flatMap, List.countP_flatMap]
  congr 2
  funext row
  simp only [Function.comp_apply, rowPoints, litBits, List.countP_map, List.countP_filter]
  apply List.countP_congr
  intro column _
  simp [spriteLit, Cell.locate_eq_some_iff, and_comm]

/-- On the grid it makes no difference whether the edges of the screen are joined. -/
theorem Cell.isUnder_iff_of_onGrid {x y : Int} (h : OnGrid x y) (cell : Cell) (wrap other : Bool) :
    cell.IsUnder wrap x y ↔ cell.IsUnder other x y := by
  have hMod : x % 64 = x ∧ y % 32 = y := by
    unfold OnGrid at h
    omega
  simp [IsUnder, hMod]

theorem coverage_eq_of_onGrid {memory : Memory} {x y : Int} {address : UInt16} {rows : Nat}
    (h : ∀ row < rows, ∀ column < 8, spriteLit memory address row column = true →
      Cell.OnGrid (x + (column : Int)) (y + (row : Int))) (cell : Cell) (wrap other : Bool) :
    coverage wrap memory x y address rows cell = coverage other memory x y address rows cell := by
  unfold coverage
  congr 1
  refine Finset.filter_congr fun place hPlace => and_congr_right fun hLit => ?_
  obtain ⟨hRow, hColumn⟩ := Finset.mem_product.mp hPlace
  rw [Finset.mem_range] at hRow hColumn
  exact Cell.isUnder_iff_of_onGrid (h _ hRow _ hColumn hLit) cell wrap other

namespace Screen

variable (screen : Screen) (memory : Memory) (x y : Int) (address : UInt16) (rows : Nat)

theorem pixel_draw (cell : Cell) :
    (screen.draw memory x y address rows).value.screen.pixel cell =
      (screen.pixel cell ^^
        decide (coverage screen.wrap memory x y address rows cell % 2 = 1)) := by
  rw [value_draw, Drawn.pixel_flipAll, hits_spritePoints]

theorem collision_draw :
    (screen.draw memory x y address rows).value.collision = true ↔
      ∃ cell, 2 ≤ coverage screen.wrap memory x y address rows cell ∨
        1 ≤ coverage screen.wrap memory x y address rows cell ∧ screen.pixel cell = true := by
  rw [value_draw, Drawn.collision_flipAll]
  simp only [hits_spritePoints, Bool.false_eq_true, false_or]

/-- Drawing changes every cell once for each lit pixel that comes to lie on it, and collides if one
of these changes turns a cell dark. A sprite whose lit pixels all lie on the grid is drawn alike
whether the edges of the screen are joined or not. -/
theorem draw_composites :
    (∀ cell, (screen.draw memory x y address rows).value.screen.pixel cell =
      (screen.pixel cell ^^
        decide (coverage screen.wrap memory x y address rows cell % 2 = 1))) ∧
    ((screen.draw memory x y address rows).value.collision = true ↔
      ∃ cell, 2 ≤ coverage screen.wrap memory x y address rows cell ∨
        1 ≤ coverage screen.wrap memory x y address rows cell ∧ screen.pixel cell = true) ∧
    ((∀ row < rows, ∀ column < 8, spriteLit memory address row column = true →
        Cell.OnGrid (x + (column : Int)) (y + (row : Int))) →
      ∀ other : Screen, other.pixels = screen.pixels →
        (other.draw memory x y address rows).value.screen.pixels =
            (screen.draw memory x y address rows).value.screen.pixels ∧
          (other.draw memory x y address rows).value.collision =
            (screen.draw memory x y address rows).value.collision) := by
  refine ⟨screen.pixel_draw memory x y address rows, collision_draw .., fun hGrid other hSame => ?_⟩
  have hCoverage (cell : Cell) := coverage_eq_of_onGrid hGrid cell other.wrap screen.wrap
  have hPixel := pixels_eq_iff.mp hSame
  constructor
  · rw [pixels_eq_iff]
    intro cell
    rw [pixel_draw, pixel_draw, hPixel, hCoverage]
  · rw [Bool.eq_iff_iff, collision_draw, collision_draw]
    simp only [hPixel, hCoverage]

/-- A glyph in the bottom right corner of a screen touches both edges and passes neither. -/
theorem draw_composites_in_corner :
    (∀ row < 5, ∀ column < 8, spriteLit .initial 0 row column = true →
      Cell.OnGrid (56 + (column : Int)) (27 + (row : Int))) ∧
    ((blank false).draw .initial 56 27 0 5).value.screen.pixels =
      ((blank true).draw .initial 56 27 0 5).value.screen.pixels ∧
    ((blank false).draw .initial 56 27 0 5).value.collision =
      ((blank true).draw .initial 56 27 0 5).value.collision := by
  have hGrid : ∀ row < 5, ∀ column < 8, spriteLit .initial 0 row column = true →
      Cell.OnGrid (56 + (column : Int)) (27 + (row : Int)) := by
    intro row hRow column hColumn _
    unfold Cell.OnGrid
    omega
  exact ⟨hGrid, (draw_composites (blank true) .initial 56 27 0 5).2.2 hGrid (blank false) rfl⟩

end Screen

end Chip8
