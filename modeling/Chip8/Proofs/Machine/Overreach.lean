import Chip8.Keys.Keypad
import Chip8.Proofs.Lockstep.Run
import Chip8.Proofs.Machine.Transfers
import Chip8.Proofs.Screen.Flipping

/-!
Overreaching. Where I points behind memory a machine that is not strict loses what it stores and
reads zero, up to the last address of sixteen bits. Behind that one addresses start over, and the
rest of an access meets the first cells of memory: bytes are stored there, and registers and rows
are read from there.
-/

namespace Chip8

theorem Memory.overlay_drop_of_length_le (memory : Memory) {start lost : Nat} {bytes : List UInt8}
    (h : bytes.length ≤ lost) : memory.overlay start (bytes.drop lost) = memory := by
  rw [List.drop_of_length_le h, overlay_nil]

/-- The rows of a sprite behind memory are dark; those that start over are drawn from the first
cell on. -/
theorem spritePoints_of_le (memory : Memory) (x y : Int) {address : UInt16}
    (h : 4096 ≤ address.toNat) (rows : Nat) :
    spritePoints memory x y address rows =
      spritePoints memory x (y + ((65536 - address.toNat : Nat) : Int)) 0
        (rows - (65536 - address.toNat)) := by
  induction rows generalizing y address with
  | zero => rw [Nat.zero_sub]; rfl
  | succ rows ih =>
      have hAddress := address.toNat_lt
      have hDark : (memory.get address).value = 0 := by
        rw [Memory.value_get, Vector.getElem?_eq_none h]
        rfl
      have hNone : rowPoints 0 x y = [] := rfl
      rw [spritePoints_succ, hDark, hNone, List.nil_append]
      -- Behind the last address the rest of the rows starts over, with nothing lost any more.
      by_cases hEnd : address.toNat = 65535
      · obtain rfl : address = 65535 := UInt16.toNat_inj.mp hEnd
        rfl
      · have hNext : (address + 1).toNat = address.toNat + 1 := Memory.toNat_add_one (by omega)
        have hLine : y + 1 + ((65536 - (address + 1).toNat : Nat) : Int) =
            y + ((65536 - address.toNat : Nat) : Int) := by omega
        have hRows : rows - (65536 - (address + 1).toNat) =
            rows + 1 - (65536 - address.toNat) := by omega
        rw [ih _ (by omega), hLine, hRows]

theorem Screen.value_draw_of_le (screen : Screen) (memory : Memory) (x y : Int) {address : UInt16}
    (h : 4096 ≤ address.toNat) (rows : Nat) :
    (screen.draw memory x y address rows).value =
      (screen.draw memory x (y + ((65536 - address.toNat : Nat) : Int)) 0
        (rows - (65536 - address.toNat))).value := by
  rw [value_draw, value_draw, spritePoints_of_le memory x y h]

namespace Machine

variable {machine : Machine}

section

variable (hStrict : machine.config.strict = false) (hIndex : 4096 ≤ machine.registers.i.toNat)
  (held : UInt8 → Bool) (x : Register)

include hStrict hIndex

theorem memory_execute_decimal :
    (machine.execute held (.decimal x)).machine.memory =
      machine.memory.overlay 0 ((decimalDigits (machine.registers.getV x)).drop
        (65536 - machine.registers.i.toNat)) := by
  have hLength : (decimalDigits (machine.registers.getV x)).length ≤ 65536 := by
    simp [decimalDigits]
  rw [execute, machine.machine_writeBlock_of_le hStrict hIndex hLength]

theorem memory_execute_store :
    (machine.execute held (.store x)).machine.memory =
      machine.memory.overlay 0 (((upTo x).map machine.registers.getV).drop
        (65536 - machine.registers.i.toNat)) := by
  have hLength : ((upTo x).map machine.registers.getV).length ≤ 65536 := by
    rw [List.length_map, length_upTo]
    omega
  apply Outcome.andThen_keeps (motive := fun final => final.memory = _)
  · rw [machine.machine_writeBlock_of_le hStrict hIndex hLength]
  · intro stored hStored
    rw [passBlock_eq]
    exact hStored

theorem getV_execute_load {r : Register} (h : r ≤ x) :
    (machine.execute held (.load x)).machine.registers.getV r =
      if r.val < 65536 - machine.registers.i.toNat then 0
      else machine.memory.cells[r.val - (65536 - machine.registers.i.toNat)]?.getD 0 := by
  apply Outcome.andThen_keeps (motive := fun final => final.registers.getV r = _)
  · rw [getV_readBlock_of_getElem? (nodup_upTo x) (getElem?_upTo h), if_neg (by simp [hStrict]),
      Memory.value_get, UInt16.toNat_add, UInt16.toNat_ofNat_of_lt' (show r.val < 65536 by omega)]
    have hAddress := machine.registers.i.toNat_lt
    by_cases hLost : r.val < 65536 - machine.registers.i.toNat
    · rw [if_pos hLost, Nat.mod_eq_of_lt (by omega), Vector.getElem?_eq_none (by omega)]
      rfl
    · have hPlace : (machine.registers.i.toNat + r.val) % 65536 =
          r.val - (65536 - machine.registers.i.toNat) := by omega
      rw [if_neg hLost, hPlace]
  · intro loaded hLoaded
    rw [passBlock_eq]
    exact hLoaded

theorem execute_draw_of_le (y : Register) (rows : Fin 16) :
    let lost := 65536 - machine.registers.i.toNat
    let drawn := (machine.screen.draw machine.memory (machine.registers.getV x).toNat
      ((machine.registers.getV y).toNat + (lost : Int)) 0 (rows.val - lost)).value
    let final := (machine.execute held (.draw x y rows)).machine
    final.screen = drawn.screen ∧
      final.registers.getV flagRegister = flagByte drawn.collision := by
  intro lost drawn final
  have hDrawn : drawn = _ :=
    (machine.screen.value_draw_of_le machine.memory _ _ hIndex rows.val).symm
  have hFault : machine.drawFault? rows = none := by simp [drawFault?, hStrict]
  have hFinal : (machine.draw x y rows).machine =
      { machine with screen := drawn.screen }.setV flagRegister (flagByte drawn.collision) := by
    rw [draw, hFault, hDrawn]
  rw [show final = _ from hFinal]
  exact ⟨rfl, by simp [setV, Registers.getV_setV]⟩

end

/-- What a machine that is not strict does with a word where I is behind memory. Of what it stores
or reads as much is lost as there are addresses left from I on, and that does no harm. The rest
is stored in the first cells of memory, or read from them. -/
theorem permissive_step_overreaches (machine : Machine) (hStrict : machine.config.strict = false)
    (hIndex : 0xFFF < machine.registers.i.toNat) {word : Word}
    (h : machine.upcoming? = some word) {κ : Type} [KeyInput κ] (keys : κ) :
    let stepped := machine.step keys
    let final := stepped.outcome.machine
    let lost := 0x10000 - machine.registers.i.toNat
    let digits := decimalDigits (machine.registers.getV word.x)
    let block := (upTo word.x).map machine.registers.getV
    let drawn := (machine.screen.draw machine.memory (machine.registers.getV word.x).toNat
      ((machine.registers.getV word.y).toNat + (lost : Int)) 0 (word.last.val - lost)).value
    stepped.outcome.fault = none ∧
    (word.family = 0xF ∧ word.low = 0x33 →
      final.memory = machine.memory.overlay 0 (digits.drop lost) ∧
      (3 ≤ lost → final.memory = machine.memory)) ∧
    (word.family = 0xF ∧ word.low = 0x55 →
      final.memory = machine.memory.overlay 0 (block.drop lost) ∧
      (word.x.val + 1 ≤ lost → final.memory = machine.memory)) ∧
    (word.family = 0xF ∧ word.low = 0x65 → ∀ r ≤ word.x, final.registers.getV r =
      if r.val < lost then 0 else machine.memory.cells[r.val - lost]?.getD 0) ∧
    (word.family = 0xD →
      final.screen = drawn.screen ∧
      final.registers.getV flagRegister = flagByte drawn.collision ∧
      (word.last.val ≤ lost → final.screen = machine.screen ∧
        final.registers.getV flagRegister = 0)) := by
  intro stepped final lost digits block drawn
  have hFetched : (machine.fetched word).config.strict = false := hStrict
  have hBehind : 4096 ≤ (machine.fetched word).registers.i.toNat := hIndex
  refine ⟨(step_lockstep hStrict keys).outcome.no_fault, ?_, ?_, ?_, ?_⟩
  · rintro ⟨hFamily, hLow⟩
    have hEncodes : word.Encodes (.decimal word.x) := ⟨hFamily, hLow, rfl⟩
    have hMemory : final.memory = machine.memory.overlay 0 (digits.drop lost) := by
      rw [show final = _ from machine_step_of_encodes h hEncodes keys]
      exact memory_execute_decimal hFetched hBehind _ _
    exact ⟨hMemory, fun hSpan => hMemory.trans (machine.memory.overlay_drop_of_length_le hSpan)⟩
  · rintro ⟨hFamily, hLow⟩
    have hEncodes : word.Encodes (.store word.x) := ⟨hFamily, hLow, rfl⟩
    have hMemory : final.memory = machine.memory.overlay 0 (block.drop lost) := by
      rw [show final = _ from machine_step_of_encodes h hEncodes keys]
      exact memory_execute_store hFetched hBehind _ _
    have hLength : block.length = word.x.val + 1 := by rw [List.length_map, length_upTo]
    rw [← hLength]
    exact ⟨hMemory, fun hSpan => hMemory.trans (machine.memory.overlay_drop_of_length_le hSpan)⟩
  · rintro ⟨hFamily, hLow⟩ r hr
    have hEncodes : word.Encodes (.load word.x) := ⟨hFamily, hLow, rfl⟩
    rw [show final = _ from machine_step_of_encodes h hEncodes keys]
    exact getV_execute_load hFetched hBehind _ _ hr
  · intro hFamily
    have hEncodes : word.Encodes (.draw word.x word.y word.last) := ⟨hFamily, rfl, rfl, rfl⟩
    have hDrawn : final.screen = drawn.screen ∧
        final.registers.getV flagRegister = flagByte drawn.collision := by
      rw [show final = _ from machine_step_of_encodes h hEncodes keys]
      exact execute_draw_of_le hFetched hBehind _ _ _ _
    obtain ⟨hScreen, hFlag⟩ := hDrawn
    refine ⟨hScreen, hFlag, fun hSpan => ?_⟩
    have hNothing : drawn = ⟨machine.screen, false⟩ := by
      simp only [drawn, Nat.sub_eq_zero_of_le hSpan]
      rfl
    rw [hScreen, hFlag, hNothing]
    exact ⟨rfl, rfl⟩

/-- With I at the last address of sixteen bits, the first of two registers is read as zero and the
second one from the font. -/
theorem permissive_step_overreaches_into_font :
    let machine : Machine :=
      { Machine.initial {} (.ofSeed 0) with
          memory := Memory.initial.install 0x200 [0xF1, 0x65]
          registers := { Registers.initial with i := 0xFFFF, v := Vector.replicate 16 7 } }
    let final := (machine.step Keypad.initial).outcome.machine
    machine.config.strict = false ∧
    0xFFF < machine.registers.i.toNat ∧
    machine.upcoming? = some 0xF165 ∧
    final.registers.getV 0 = 0 ∧
    final.registers.getV 1 = 0xF0 := by
  intro machine final
  have hEvaluated : machine.upcoming? = some 0xF165 ∧
      machine.memory.cells[0]?.getD 0 = 0xF0 := by
    decide +kernel +revert
  obtain ⟨hWord, hFirst⟩ := hEvaluated
  have hIndex : 0xFFF < machine.registers.i.toNat := by decide
  obtain ⟨-, -, -, hLoad, -⟩ :=
    permissive_step_overreaches machine rfl hIndex hWord Keypad.initial
  refine ⟨rfl, hIndex, hWord, ?_, ?_⟩
  · exact hLoad ⟨rfl, rfl⟩ 0 (by decide)
  · exact (hLoad ⟨rfl, rfl⟩ 1 (by decide)).trans hFirst

/-- Here the second of two registers is stored over the font. -/
theorem permissive_step_overwrites_font :
    let machine : Machine :=
      { Machine.initial {} (.ofSeed 0) with
          memory := Memory.initial.install 0x200 [0xF1, 0x55]
          registers := { Registers.initial with i := 0xFFFF, v := Vector.replicate 16 7 } }
    let final := (machine.step Keypad.initial).outcome.machine
    machine.config.strict = false ∧
    0xFFF < machine.registers.i.toNat ∧
    machine.upcoming? = some 0xF155 ∧
    machine.memory.cells.get 0 = 0xF0 ∧
    final.memory.cells.get 0 = 7 ∧
    final.memory ≠ machine.memory := by
  intro machine final
  have hEvaluated : machine.upcoming? = some 0xF155 ∧ machine.memory.cells.get 0 = 0xF0 ∧
      final.memory.cells.get 0 = 7 := by
    decide +kernel +revert
  obtain ⟨hWord, hBefore, hAfter⟩ := hEvaluated
  refine ⟨rfl, by decide, hWord, hBefore, hAfter, fun hSame => ?_⟩
  rw [hSame, hBefore] at hAfter
  cases hAfter

end Machine

end Chip8
