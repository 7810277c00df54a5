import Chip8.Proofs.Screen.Compositing

/-!
Drawing away from the edges. A sprite whose lit pixels all lie on the grid is drawn alike, down to
the notices, whether the edges of the screen are joined or not.
-/

namespace Chip8

/-- Whether all lit pixels of a sprite with its top left corner at (x, y) lie on the grid. -/
def SpriteOnGrid (memory : Memory) (x y : Int) (address : UInt16) (rows : Nat) : Prop :=
  ∀ row < rows, ∀ column < 8, spriteLit memory address row column = true →
    Cell.OnGrid (x + (column : Int)) (y + (row : Int))

instance (memory : Memory) (x y : Int) (address : UInt16) (rows : Nat) :
    Decidable (SpriteOnGrid memory x y address rows) :=
  inferInstanceAs (Decidable (∀ row < rows, ∀ column < 8, _ → _))

/-- The same screen with its edges joined or not. -/
def Screen.withWrap (screen : Screen) (wrap : Bool) : Screen :=
  { screen with wrap := wrap }

theorem Cell.locate_of_onGrid {x y : Int} (h : OnGrid x y) (wrap : Bool) :
    locate wrap x y = some (wrapped x y) :=
  if_pos (.inr h)

namespace Drawn

def withWrap (drawn : Drawn) (wrap : Bool) : Drawn :=
  { drawn with screen := drawn.screen.withWrap wrap }

theorem flip_withWrap {x y : Int} (h : Cell.OnGrid x y) (drawn : Drawn) (wrap : Bool) :
    (drawn.withWrap wrap).flip x y =
      ⟨(drawn.flip x y).value.withWrap wrap, (drawn.flip x y).notices⟩ := by
  simp only [flip, Cell.locate_of_onGrid h]
  rfl

theorem flipAll_withWrap {points : List (Int × Int)}
    (h : ∀ point ∈ points, Cell.OnGrid point.1 point.2) (drawn : Drawn) (wrap : Bool) :
    (drawn.withWrap wrap).flipAll points =
      ⟨(drawn.flipAll points).value.withWrap wrap, (drawn.flipAll points).notices⟩ := by
  induction points generalizing drawn with
  | nil => rfl
  | cons point rest ih =>
      obtain ⟨hFirst, hRest⟩ := List.forall_mem_cons.mp h
      simp only [flipAll, bind]
      rw [flip_withWrap hFirst]
      dsimp only
      rw [ih hRest]

end Drawn

theorem SpriteOnGrid.first {memory : Memory} {x y : Int} {address : UInt16} {rows : Nat}
    (h : SpriteOnGrid memory x y address (rows + 1)) :
    ∀ point ∈ rowPoints (memory.get address).value x y, Cell.OnGrid point.1 point.2 := by
  intro point hPoint
  obtain ⟨column, hColumn, rfl⟩ := List.mem_map.mp hPoint
  obtain ⟨hRange, hLit⟩ := List.mem_filter.mp hColumn
  have hFirst : address + UInt16.ofNat 0 = address := address.add_zero
  rw [← hFirst] at hLit
  simpa using h 0 (Nat.succ_pos rows) column (List.mem_range.mp hRange) hLit

theorem SpriteOnGrid.rest {memory : Memory} {x y : Int} {address : UInt16} {rows : Nat}
    (h : SpriteOnGrid memory x y address (rows + 1)) :
    SpriteOnGrid memory x (y + 1) (address + 1) rows := by
  intro row hRow column hColumn hLit
  have hLine : y + ((row + 1 : Nat) : Int) = y + 1 + (row : Int) := by omega
  rw [spriteLit, ← Memory.address_add_succ] at hLit
  rw [← hLine]
  exact h (row + 1) (Nat.succ_lt_succ hRow) column hColumn hLit

namespace Screen

variable {memory : Memory} {x y : Int} {address : UInt16} {rows : Nat}

theorem drawRows_withWrap (h : SpriteOnGrid memory x y address rows) (drawn : Drawn)
    (wrap : Bool) :
    drawRows memory x rows y address (drawn.withWrap wrap) =
      ⟨(drawRows memory x rows y address drawn).value.withWrap wrap,
        (drawRows memory x rows y address drawn).notices⟩ := by
  induction rows generalizing y address drawn with
  | zero => rfl
  | succ rows ih =>
      simp only [drawRows, bind]
      rw [Drawn.flipAll_withWrap h.first]
      dsimp only
      rw [ih h.rest]

/-- Joining the edges, or not, and drawing a sprite that passes none of them may be done in either
order. So may joining the edges of a screen where they are joined already. -/
theorem draw_withWrap {screen : Screen} {wrap : Bool}
    (h : wrap = screen.wrap ∨ SpriteOnGrid memory x y address rows) :
    (screen.withWrap wrap).draw memory x y address rows =
      ⟨(screen.draw memory x y address rows).value.withWrap wrap,
        (screen.draw memory x y address rows).notices⟩ := by
  rcases h with rfl | hGrid
  · have hWrap : (screen.draw memory x y address rows).value.screen.wrap = screen.wrap := by
      rw [value_draw, Drawn.wrap_flipAll]
    have hSame : (screen.draw memory x y address rows).value.withWrap screen.wrap =
        (screen.draw memory x y address rows).value := by
      rw [← hWrap]
      rfl
    rw [hSame]
    rfl
  · exact drawRows_withWrap hGrid ⟨screen, false⟩ wrap

end Screen

end Chip8
