import Chip8.Proofs.Screen.Compositing

/-!
Windows of eight pixels. On a screen with joined edges a row of a sprite covers a window of eight
cells, and the windows of up to 32 rows have no cell in common. So reading a window after drawing
gives what it was before, changed by exclusive or with the byte of its row.
-/

namespace Chip8

/-- Of bits packed one after another, the first one comes to be the highest. -/
theorem testBit_foldl_bits (f : Nat → Bool) {n k : Nat} (h : k < n) :
    ((List.range n).foldl (fun byte k => 2 * byte + (f k).toNat) 0).testBit (n - 1 - k) = f k := by
  induction n with
  | zero => exact absurd h (Nat.not_lt_zero k)
  | succ n ih =>
      simp only [List.range_succ, List.foldl_append, List.foldl_cons, List.foldl_nil]
      rcases Nat.lt_succ_iff_lt_or_eq.mp h with hBefore | rfl
      · have hPlace : n + 1 - 1 - k = n - 1 - k + 1 := by omega
        have hHalf (byte : Nat) : (2 * byte + (f n).toNat) / 2 = byte := by
          have := (f n).toNat_lt
          omega
        rw [hPlace, Nat.testBit_succ, hHalf, ih hBefore]
      · rw [Nat.add_sub_cancel, Nat.sub_self, Nat.testBit_zero, Nat.mul_add_mod]
        cases f k <;> rfl

theorem byte_eq_of_testBit_eq {a b : UInt8}
    (h : ∀ k < 8, a.toNat.testBit (7 - k) = b.toNat.testBit (7 - k)) : a = b := by
  apply UInt8.toNat_inj.mp
  apply Nat.eq_of_testBit_eq
  intro place
  by_cases hPlace : place < 8
  · have hSame : 7 - (7 - place) = place := by omega
    rw [← hSame]
    exact h (7 - place) (by omega)
  · have hHigh (byte : UInt8) : byte.toNat.testBit place = false :=
      Nat.testBit_lt_two_pow
        (byte.toNat_lt.trans_le (Nat.pow_le_pow_right Nat.two_pos (Nat.not_lt.mp hPlace)))
    rw [hHigh, hHigh]

/-- Two bytes have a bit in common exactly if their conjunction is not zero. -/
theorem byte_and_ne_zero_iff {a b : UInt8} :
    a &&& b ≠ 0 ↔ ∃ k < 8, a.toNat.testBit (7 - k) = true ∧ b.toNat.testBit (7 - k) = true := by
  constructor
  · intro hBoth
    by_contra hNone
    refine hBoth (byte_eq_of_testBit_eq fun k hk => ?_)
    have hBits : ¬ (a.toNat.testBit (7 - k) = true ∧ b.toNat.testBit (7 - k) = true) :=
      fun hCommon => hNone ⟨k, hk, hCommon⟩
    simpa [UInt8.toNat_and, Nat.testBit_and] using hBits
  · rintro ⟨k, -, hA, hB⟩ hZero
    have hBit : (a &&& b).toNat.testBit (7 - k) = true := by
      rw [UInt8.toNat_and, Nat.testBit_and, hA, hB, Bool.and_self]
    rw [hZero] at hBit
    simp at hBit

/-- Where the edges are joined, up to 32 rows of eight raw points each land on different cells. -/
theorem Cell.isUnder_wrapped_iff {x y row column otherRow otherColumn : Nat} (hRow : row < 32)
    (hColumn : column < 8) (hOtherRow : otherRow < 32) (hOtherColumn : otherColumn < 8) :
    (wrapped ((x + column : Nat) : Int) ((y + row : Nat) : Int)).IsUnder true
        ((x : Int) + (otherColumn : Int)) ((y : Int) + (otherRow : Int)) ↔
      otherRow = row ∧ otherColumn = column := by
  simp only [IsUnder, wrapped, if_true]
  omega

/-- A cell that lit pixels come to lie on is under one of them. -/
theorem exists_of_coverage_ne_zero {wrap : Bool} {memory : Memory} {x y : Int} {address : UInt16}
    {rows : Nat} {cell : Cell}
    (h : coverage wrap memory x y address rows cell ≠ 0) :
    ∃ row < rows, ∃ column < 8, spriteLit memory address row column = true ∧
      cell.IsUnder wrap (x + (column : Int)) (y + (row : Int)) := by
  obtain ⟨⟨row, column⟩, hPlace⟩ := Finset.card_ne_zero.mp h
  obtain ⟨hInside, hLit, hUnder⟩ := Finset.mem_filter.mp hPlace
  obtain ⟨hRow, hColumn⟩ := Finset.mem_product.mp hInside
  exact ⟨row, Finset.mem_range.mp hRow, column, Finset.mem_range.mp hColumn, hLit, hUnder⟩

/-- A cell in the window of a row is covered by the one pixel of the sprite that belongs there. -/
theorem coverage_wrapped (memory : Memory) (x y : Nat) (address : UInt16) {rows row column : Nat}
    (hRows : rows ≤ 32) (hRow : row < rows) (hColumn : column < 8) :
    coverage true memory x y address rows
        (Cell.wrapped ((x + column : Nat) : Int) ((y + row : Nat) : Int)) =
      (spriteLit memory address row column).toNat := by
  have hPlaces : ∀ place ∈ Finset.range rows ×ˢ Finset.range 8,
      (spriteLit memory address place.1 place.2 = true ∧
        (Cell.wrapped ((x + column : Nat) : Int) ((y + row : Nat) : Int)).IsUnder true
          ((x : Int) + (place.2 : Int)) ((y : Int) + (place.1 : Int))) ↔
      spriteLit memory address row column = true ∧ place = (row, column) := by
    rintro ⟨otherRow, otherColumn⟩ hPlace
    simp only [Finset.mem_product, Finset.mem_range] at hPlace
    rw [Cell.isUnder_wrapped_iff (by omega) hColumn (by omega) hPlace.2, Prod.mk.injEq]
    constructor
    · rintro ⟨hLit, rfl, rfl⟩
      exact ⟨hLit, rfl, rfl⟩
    · rintro ⟨hLit, rfl, rfl⟩
      exact ⟨hLit, rfl, rfl⟩
  rw [coverage, Finset.filter_congr hPlaces]
  cases spriteLit memory address row column with
  | false => simp
  | true => simp [Finset.filter_eq', hRow, hColumn]

namespace Screen

/-- The bits of a byte are the pixels of its window. -/
theorem testBit_byteAt (screen : Screen) (x y : Nat) {k : Nat} (h : k < 8) :
    (screen.byteAt x y).toNat.testBit (7 - k) = screen.lit (x + k) y := by
  rw [byteAt, UInt8.toNat_ofNat', Nat.testBit_mod_two_pow, decide_eq_true (by omega),
    Bool.true_and]
  exact testBit_foldl_bits (fun k => screen.lit (x + k) y) h

theorem byteAt_of_dark {screen : Screen} (h : ∀ cell, screen.pixel cell = false) (x y : Nat) :
    screen.byteAt x y = 0 := by
  apply byte_eq_of_testBit_eq
  intro k hk
  rw [testBit_byteAt screen x y hk, lit, h]
  simp

variable (screen : Screen) (memory : Memory) (x y : Nat) (address : UInt16) {rows : Nat}

theorem lit_draw (hWrap : screen.wrap = true) (hRows : rows ≤ 32) {row column : Nat}
    (hRow : row < rows) (hColumn : column < 8) :
    (screen.draw memory x y address rows).value.screen.lit (x + column) (y + row) =
      (screen.lit (x + column) (y + row) ^^ spriteLit memory address row column) := by
  rw [lit, pixel_draw, hWrap, coverage_wrapped memory x y address hRows hRow hColumn, lit]
  cases spriteLit memory address row column <;> rfl

/-- As no cell is covered twice, there is a collision exactly if a lit cell is covered. -/
theorem collision_draw_of_le (hWrap : screen.wrap = true) (hRows : rows ≤ 32) :
    (screen.draw memory x y address rows).value.collision = true ↔
      ∃ row < rows, ∃ column < 8, screen.lit (x + column) (y + row) = true ∧
        spriteLit memory address row column = true := by
  rw [collision_draw, hWrap]
  constructor
  · rintro ⟨cell, hCell⟩
    have hCovered : coverage true memory x y address rows cell ≠ 0 := by omega
    obtain ⟨row, hRow, column, hColumn, hLit, hUnder⟩ := exists_of_coverage_ne_zero hCovered
    have hSame : Cell.wrapped ((x + column : Nat) : Int) ((y + row : Nat) : Int) = cell :=
      Option.some.inj (Cell.locate_eq_some_iff.mpr hUnder)
    have hOnce := coverage_wrapped memory x y address hRows hRow hColumn
    rw [hSame, hLit, Bool.toNat_true] at hOnce
    refine ⟨row, hRow, column, hColumn, ?_, hLit⟩
    rw [lit, hSame]
    exact (hCell.resolve_left (by omega)).2
  · rintro ⟨row, hRow, column, hColumn, hBefore, hLit⟩
    refine ⟨_, .inr ⟨?_, hBefore⟩⟩
    rw [coverage_wrapped memory x y address hRows hRow hColumn, hLit, Bool.toNat_true]

/-- On a screen with joined edges, drawing up to 32 rows changes the window of each row by exclusive
or with its byte, and collides exactly if a byte has a bit in common with its window. All cells
outside of the windows stay as they were. A blank screen shows the bytes themselves. -/
theorem draw_reads_back (screen : Screen) (memory : Memory) (x y : Nat) (address : UInt16)
    {rows : Nat} (hWrap : screen.wrap = true) (hRows : rows ≤ 32) :
    let drawn := (screen.draw memory x y address rows).value
    let sprite (row : Nat) : UInt8 := (memory.get (address + UInt16.ofNat row)).value
    (∀ row < rows, drawn.screen.byteAt x (y + row) = screen.byteAt x (y + row) ^^^ sprite row) ∧
    (drawn.collision = true ↔ ∃ row < rows, screen.byteAt x (y + row) &&& sprite row ≠ 0) ∧
    (∀ cell : Cell, (∀ row < rows, ∀ column < 8,
        ¬ (cell.x.val = (x + column) % 64 ∧ cell.y.val = (y + row) % 32)) →
      drawn.screen.pixel cell = screen.pixel cell) ∧
    ((∀ cell, screen.pixel cell = false) →
      ∀ row < rows, drawn.screen.byteAt x (y + row) = sprite row) := by
  intro drawn sprite
  have hXor : ∀ row < rows,
      drawn.screen.byteAt x (y + row) = screen.byteAt x (y + row) ^^^ sprite row := by
    intro row hRow
    apply byte_eq_of_testBit_eq
    intro k hk
    rw [UInt8.toNat_xor, Nat.testBit_xor, testBit_byteAt _ x _ hk, testBit_byteAt _ x _ hk]
    exact screen.lit_draw memory x y address hWrap hRows hRow hk
  refine ⟨hXor, ?_, ?_, ?_⟩
  · rw [screen.collision_draw_of_le memory x y address hWrap hRows]
    refine exists_congr fun row => and_congr_right fun hRow => ?_
    rw [byte_and_ne_zero_iff]
    refine exists_congr fun column => and_congr_right fun hColumn => ?_
    rw [testBit_byteAt screen x _ hColumn]
    rfl
  · intro cell hOutside
    have hNone : coverage true memory x y address rows cell = 0 := by
      by_contra hCovered
      obtain ⟨row, hRow, column, hColumn, -, hUnder⟩ := exists_of_coverage_ne_zero hCovered
      apply hOutside row hRow column hColumn
      simp only [Cell.IsUnder, if_true] at hUnder
      omega
    rw [pixel_draw, hWrap, hNone]
    exact Bool.xor_false _
  · intro hBlank row hRow
    rw [hXor row hRow, byteAt_of_dark hBlank, UInt8.zero_xor]

/-- A glyph across the bottom right corner of a blank screen is read back from all four corners. -/
theorem draw_reads_back_across_corner :
    let drawn := ((blank true).draw .initial (60 : Nat) (30 : Nat) 0 5).value
    (blank true).wrap = true ∧ 5 ≤ 32 ∧
    (∀ row < 5, drawn.screen.byteAt 60 (30 + row) =
      (Memory.initial.get (0 + UInt16.ofNat row)).value) ∧
    drawn.collision = false ∧ drawn.screen.pixel ⟨59, 30⟩ = false := by
  intro drawn
  obtain ⟨-, hCollision, hOutside, hBlank⟩ :=
    draw_reads_back (blank true) .initial 60 30 0 rfl (show 5 ≤ 32 by decide)
  refine ⟨rfl, by decide, hBlank (pixel_blank true), ?_, ?_⟩
  · rw [← Bool.not_eq_true]
    intro hCollided
    obtain ⟨row, -, hCommon⟩ := hCollision.mp hCollided
    rw [byteAt_of_dark (pixel_blank true), UInt8.zero_and] at hCommon
    exact hCommon rfl
  · rw [← pixel_blank true ⟨59, 30⟩]
    apply hOutside
    decide

end Screen

end Chip8
