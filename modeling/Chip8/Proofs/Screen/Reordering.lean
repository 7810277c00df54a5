import Chip8.Proofs.Screen.Flipping

/-!
Sprites drawn one after another. All of them together flip their points in some order, and flipping
does not depend on the order. So neither do the screen and whether there was any collision, and
what is drawn again is erased.
-/

namespace Chip8

theorem hits_append (wrap : Bool) (points others : List (Int × Int)) (cell : Cell) :
    hits wrap (points ++ others) cell = hits wrap points cell + hits wrap others cell :=
  List.countP_append

theorem hits_perm {points others : List (Int × Int)} (h : points.Perm others) (wrap : Bool)
    (cell : Cell) : hits wrap points cell = hits wrap others cell :=
  h.countP_eq _

theorem misses_perm {points others : List (Int × Int)} (h : points.Perm others) (wrap : Bool) :
    misses wrap points = misses wrap others :=
  h.any_eq

namespace Drawn

/-- What becomes of a screen depends neither on the order of the points nor on an earlier
collision. -/
theorem screen_flipAll_perm {drawn other : Drawn} (hScreen : drawn.screen = other.screen)
    {points others : List (Int × Int)} (h : points.Perm others) :
    (drawn.flipAll points).value.screen = (other.flipAll others).value.screen := by
  apply Screen.ext_pixel
  · intro cell
    rw [pixel_flipAll, pixel_flipAll, hScreen, hits_perm h]
  · rw [wrap_flipAll, wrap_flipAll, hScreen]
  · rw [clipNoted_flipAll, clipNoted_flipAll, hScreen, misses_perm h]

theorem collision_flipAll_perm {points others : List (Int × Int)} (h : points.Perm others)
    (drawn : Drawn) : (drawn.flipAll points).value.collision =
      (drawn.flipAll others).value.collision := by
  rw [Bool.eq_iff_iff, collision_flipAll, collision_flipAll]
  simp only [hits_perm h]

/-- An earlier collision is kept, and that is all it does. -/
theorem collision_flipAll_eq_or (drawn : Drawn) (points : List (Int × Int)) :
    (drawn.flipAll points).value.collision =
      (drawn.collision || ((⟨drawn.screen, false⟩ : Drawn).flipAll points).value.collision) := by
  rw [Bool.eq_iff_iff, Bool.or_eq_true, collision_flipAll, collision_flipAll]
  simp

end Drawn

/-- A sprite in memory, and where its top left corner is drawn. -/
structure Sprite where
  x : Int
  y : Int
  address : UInt16
  rows : Nat

def Sprite.points (memory : Memory) (sprite : Sprite) : List (Int × Int) :=
  spritePoints memory sprite.x sprite.y sprite.address sprite.rows

namespace Screen

/-- Draws sprites one after another: the screen in the end, and whether each of them collided. -/
def drawEach (memory : Memory) (screen : Screen) : List Sprite → Screen × List Bool
  | [] => (screen, [])
  | sprite :: rest =>
    let drawn := (screen.draw memory sprite.x sprite.y sprite.address sprite.rows).value
    let later := drawn.screen.drawEach memory rest
    (later.1, drawn.collision :: later.2)

variable (memory : Memory) (screen : Screen)

/-- Sprites drawn one after another are one long list of points flipped. -/
theorem drawEach_eq_flipAll (sprites : List Sprite) :
    let drawn := ((⟨screen, false⟩ : Drawn).flipAll (sprites.flatMap (Sprite.points memory))).value
    (screen.drawEach memory sprites).1 = drawn.screen ∧
      (screen.drawEach memory sprites).2.any id = drawn.collision := by
  induction sprites generalizing screen with
  | nil => exact ⟨rfl, rfl⟩
  | cons sprite rest ih =>
      let first := ((⟨screen, false⟩ : Drawn).flipAll (sprite.points memory)).value
      have hFirst : (screen.draw memory sprite.x sprite.y sprite.address sprite.rows).value =
          first := value_draw ..
      obtain ⟨hScreen, hCollision⟩ := ih first.screen
      simp only [drawEach, hFirst, List.flatMap_cons, Drawn.value_flipAll_append, List.any_cons,
        id_eq, hScreen, hCollision]
      have hSame : (⟨first.screen, false⟩ : Drawn).screen = first.screen := rfl
      exact ⟨Drawn.screen_flipAll_perm hSame (.refl _), (first.collision_flipAll_eq_or _).symm⟩

/-- The order of sprites changes neither the screen nor whether any of them collides, and drawing
all of them again in any order brings the old pixels back. -/
theorem drawEach_perm {sprites others : List Sprite} (h : sprites.Perm others) :
    (screen.drawEach memory others).1 = (screen.drawEach memory sprites).1 ∧
      (screen.drawEach memory others).2.any id = (screen.drawEach memory sprites).2.any id ∧
      (screen.drawEach memory (sprites ++ others)).1.pixels = screen.pixels := by
  have hPoints := h.flatMap_right (Sprite.points memory)
  obtain ⟨hScreen, hCollision⟩ := screen.drawEach_eq_flipAll memory sprites
  obtain ⟨hScreen', hCollision'⟩ := screen.drawEach_eq_flipAll memory others
  refine ⟨?_, ?_, ?_⟩
  · rw [hScreen, hScreen', Drawn.screen_flipAll_perm rfl hPoints]
  · rw [hCollision, hCollision', Drawn.collision_flipAll_perm hPoints]
  · rw [pixels_eq_iff]
    intro cell
    have hTwice (n : Nat) : (n + n) % 2 ≠ 1 := by omega
    rw [(screen.drawEach_eq_flipAll memory (sprites ++ others)).1, Drawn.pixel_flipAll,
      List.flatMap_append, hits_append, hits_perm hPoints.symm, decide_eq_false (hTwice _),
      Bool.xor_false]

/-- Two glyphs across opposite edges of a screen that clips them. -/
theorem drawEach_perm_of_two_glyphs :
    let first : Sprite := ⟨-2, 30, 0, 5⟩
    let second : Sprite := ⟨61, -1, 5, 5⟩
    let screen := blank false
    [first, second].Perm [second, first] ∧
      (screen.drawEach .initial [second, first]).1 =
        (screen.drawEach .initial [first, second]).1 ∧
      (screen.drawEach .initial [second, first]).2.any id =
        (screen.drawEach .initial [first, second]).2.any id ∧
      (screen.drawEach .initial ([first, second] ++ [second, first])).1.pixels =
        screen.pixels := by
  intro first second screen
  have hPerm : [first, second].Perm [second, first] := .swap second first []
  exact ⟨hPerm, drawEach_perm .initial screen hPerm⟩

end Screen

end Chip8
