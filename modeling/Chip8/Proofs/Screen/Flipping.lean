import Chip8.Screen.Sprite

/-!
Drawing as flipping points. A sprite is drawn by flipping its points one after another, so all that
becomes of a screen is told by how many of them land on each cell, and by whether one of them lands
nowhere.
-/

namespace Chip8

/-- How many points land on a cell. -/
def hits (wrap : Bool) (points : List (Int × Int)) (cell : Cell) : Nat :=
  points.countP fun point => Cell.locate wrap point.1 point.2 = some cell

/-- Whether a point lands on no cell. -/
def misses (wrap : Bool) (points : List (Int × Int)) : Bool :=
  points.any fun point => Cell.locate wrap point.1 point.2 = none

theorem hits_cons (wrap : Bool) (point : Int × Int) (rest : List (Int × Int)) (cell : Cell) :
    hits wrap (point :: rest) cell =
      hits wrap rest cell + if Cell.locate wrap point.1 point.2 = some cell then 1 else 0 := by
  simp [hits, List.countP_cons]

theorem Cell.exists_index_eq (n : Fin 2048) : ∃ cell : Cell, cell.index = n := by
  refine ⟨⟨⟨n.val % 64, by omega⟩, ⟨n.val / 64, by omega⟩⟩, Fin.ext ?_⟩
  simp only [index]
  omega

namespace Screen

theorem pixels_eq_iff {s t : Screen} :
    s.pixels = t.pixels ↔ ∀ cell, s.pixel cell = t.pixel cell := by
  constructor
  · intro h cell
    rw [pixel, pixel, h]
  · intro h
    ext n hn
    obtain ⟨cell, hCell⟩ := Cell.exists_index_eq ⟨n, hn⟩
    have hPixel := h cell
    simp only [pixel, hCell] at hPixel
    exact hPixel

theorem ext_pixel {s t : Screen} (hPixel : ∀ cell, s.pixel cell = t.pixel cell)
    (hWrap : s.wrap = t.wrap) (hClip : s.clipNoted = t.clipNoted) : s = t := by
  have hPixels := pixels_eq_iff.mpr hPixel
  obtain ⟨pixels, wrap, clipNoted⟩ := s
  subst hPixels hWrap hClip
  rfl

theorem value_clip (screen : Screen) (x y : Int) :
    (screen.clip x y).value = { screen with clipNoted := true } := by
  obtain ⟨pixels, wrap, clipNoted⟩ := screen
  cases clipNoted <;> rfl

end Screen

namespace Drawn

variable {drawn : Drawn} {x y : Int}

theorem value_flip_of_some {cell : Cell} (h : Cell.locate drawn.screen.wrap x y = some cell) :
    (drawn.flip x y).value =
      ⟨drawn.screen.write cell (!drawn.screen.pixel cell),
        drawn.collision || drawn.screen.pixel cell⟩ := by
  simp only [flip, h, Logged.value_pure]

theorem value_flip_of_none (h : Cell.locate drawn.screen.wrap x y = none) :
    (drawn.flip x y).value = ⟨{ drawn.screen with clipNoted := true }, drawn.collision⟩ := by
  simp only [flip, h, Logged.value_bind, Logged.value_pure, Screen.value_clip]

variable (drawn x y)

theorem wrap_flip : (drawn.flip x y).value.screen.wrap = drawn.screen.wrap := by
  cases h : Cell.locate drawn.screen.wrap x y with
  | some cell => rw [value_flip_of_some h, Screen.write]
  | none => rw [value_flip_of_none h]

theorem clipNoted_flip :
    (drawn.flip x y).value.screen.clipNoted =
      (drawn.screen.clipNoted || decide (Cell.locate drawn.screen.wrap x y = none)) := by
  cases h : Cell.locate drawn.screen.wrap x y with
  | some cell => simp [value_flip_of_some h, Screen.write]
  | none => simp [value_flip_of_none h]

theorem pixel_flip (cell : Cell) :
    (drawn.flip x y).value.screen.pixel cell =
      (drawn.screen.pixel cell ^^ decide (Cell.locate drawn.screen.wrap x y = some cell)) := by
  cases h : Cell.locate drawn.screen.wrap x y with
  | none => simp [value_flip_of_none h, Screen.pixel]
  | some landed =>
      rw [value_flip_of_some h, Screen.pixel_write]
      by_cases hSame : landed = cell
      · simp [hSame]
      · simp [hSame]

theorem collision_flip :
    (drawn.flip x y).value.collision = true ↔ drawn.collision = true ∨
      ∃ cell, Cell.locate drawn.screen.wrap x y = some cell ∧ drawn.screen.pixel cell = true := by
  cases h : Cell.locate drawn.screen.wrap x y with
  | some cell => simp [value_flip_of_some h]
  | none => simp [value_flip_of_none h]

variable (points : List (Int × Int))

theorem wrap_flipAll : (drawn.flipAll points).value.screen.wrap = drawn.screen.wrap := by
  induction points generalizing drawn with
  | nil => rfl
  | cons point rest ih => rw [flipAll, Logged.value_bind, ih, wrap_flip]

/-- A screen has dropped a point afterwards if it had before, or if one of the points misses. -/
theorem clipNoted_flipAll :
    (drawn.flipAll points).value.screen.clipNoted =
      (drawn.screen.clipNoted || misses drawn.screen.wrap points) := by
  induction points generalizing drawn with
  | nil => simp [flipAll, misses]
  | cons point rest ih =>
      rw [flipAll, Logged.value_bind, ih, wrap_flip, clipNoted_flip, Bool.or_assoc]
      rfl

/-- A cell changes if it is hit an odd number of times. -/
theorem pixel_flipAll (cell : Cell) :
    (drawn.flipAll points).value.screen.pixel cell =
      (drawn.screen.pixel cell ^^ decide (hits drawn.screen.wrap points cell % 2 = 1)) := by
  induction points generalizing drawn with
  | nil => simp [flipAll, hits]
  | cons point rest ih =>
      rw [flipAll, Logged.value_bind, ih, wrap_flip, pixel_flip, hits_cons, Bool.xor_assoc]
      by_cases hHit : Cell.locate drawn.screen.wrap point.1 point.2 = some cell
      · rcases Nat.mod_two_eq_zero_or_one (hits drawn.screen.wrap rest cell) with hEven | hOdd
        · simp [hHit, Nat.add_mod, hEven]
        · simp [hHit, Nat.add_mod, hOdd]
      · simp [hHit]

/-- There is a collision if a lit cell is hit, or if some cell is hit twice: of two hits on a cell,
one finds it lit. -/
theorem collision_flipAll :
    (drawn.flipAll points).value.collision = true ↔ drawn.collision = true ∨
      ∃ cell, 2 ≤ hits drawn.screen.wrap points cell ∨
        1 ≤ hits drawn.screen.wrap points cell ∧ drawn.screen.pixel cell = true := by
  induction points generalizing drawn with
  | nil => simp [flipAll, hits]
  | cons point rest ih =>
      rw [flipAll, Logged.value_bind, ih, collision_flip, or_assoc, wrap_flip, ← exists_or]
      refine or_congr_right (exists_congr fun cell => ?_)
      rw [pixel_flip, hits_cons]
      by_cases hHit : Cell.locate drawn.screen.wrap point.1 point.2 = some cell
      · cases drawn.screen.pixel cell with
        | false =>
            -- The point lights the cell, so that one more hit is enough now.
            simp only [hHit, if_true, decide_true, Bool.false_xor, Bool.false_eq_true, and_true,
              and_false, false_or, or_false]
            omega
        | true => simp [hHit]
      · simp [hHit]

theorem value_flipAll_append (others : List (Int × Int)) :
    (drawn.flipAll (points ++ others)).value =
      ((drawn.flipAll points).value.flipAll others).value := by
  induction points generalizing drawn with
  | nil => rfl
  | cons point rest ih =>
      rw [List.cons_append, flipAll, flipAll, Logged.value_bind, Logged.value_bind, ih]

end Drawn

/-- The points of a sprite, top to bottom and left to right. -/
def spritePoints (memory : Memory) (x y : Int) (address : UInt16) (rows : Nat) :
    List (Int × Int) :=
  (List.range rows).flatMap fun row : Nat =>
    rowPoints (memory.get (address + UInt16.ofNat row)).value x (y + (row : Int))

theorem spritePoints_succ (memory : Memory) (x y : Int) (address : UInt16) (rows : Nat) :
    spritePoints memory x y address (rows + 1) =
      rowPoints (memory.get address).value x y ++
        spritePoints memory x (y + 1) (address + 1) rows := by
  have hLine (row : Nat) : y + ((row + 1 : Nat) : Int) = y + 1 + (row : Int) := by omega
  simp only [spritePoints, List.range_succ_eq_map, List.flatMap_cons, List.flatMap_map,
    Nat.succ_eq_add_one, Memory.address_add_succ, hLine]
  simp

namespace Screen

variable (screen : Screen) (memory : Memory) (x y : Int) (address : UInt16) (rows : Nat)

theorem value_drawRows (drawn : Drawn) :
    (drawRows memory x rows y address drawn).value =
      (drawn.flipAll (spritePoints memory x y address rows)).value := by
  induction rows generalizing y address drawn with
  | zero => rfl
  | succ rows ih =>
      rw [drawRows, Logged.value_bind, Logged.value_bind, ih, spritePoints_succ,
        Drawn.value_flipAll_append]

/-- Drawing a sprite flips its points, one after another. -/
theorem value_draw :
    (screen.draw memory x y address rows).value =
      ((⟨screen, false⟩ : Drawn).flipAll (spritePoints memory x y address rows)).value :=
  value_drawRows ..

end Screen

end Chip8
