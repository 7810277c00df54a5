import Chip8.Proofs.CallStack.Live
import Chip8.Proofs.Instruction.Encoding
import Chip8.Proofs.Machine.Blocks
import Chip8.Proofs.Screen.Flipping

/-!
Footprints. A footprint says which parts of a machine a word may change; everything else is as it
was. It also holds of an instruction that is cut short by a fault.
-/

namespace Chip8

namespace Arithmetic

/-- The operations without a flag are those up to digit 3. -/
theorem flag_apply_eq_none_iff (operation : Arithmetic) (inPlace : Bool) (a b : UInt8) :
    (operation.apply inPlace a b).2 = none ↔ operation.digit.val ≤ 0x3 := by
  cases operation with
  | copy | or | and | xor => exact iff_of_true rfl (by decide)
  | _ => exact iff_of_false (Option.some_ne_none _) (by decide)

theorem digit_of_flag {operation : Arithmetic} (h : ¬ operation.digit.val ≤ 0x3) :
    0x4 ≤ operation.digit.val ∧ operation.digit.val ≤ 0x7 ∨ operation.digit.val = 0xE := by
  revert h
  cases operation <;> decide

end Arithmetic

/-- Whether executing a word may change Vr. -/
def Word.MayChange (word : Word) (r : Register) : Prop :=
  r = word.x ∧ (word.family = 0x6 ∨ word.family = 0x7 ∨ word.family = 0x8 ∧ word.last.val ≤ 0x3 ∨
      word.family = 0xC ∨ word.family = 0xF ∧ word.low = 0x07) ∨
    (r = word.x ∨ r = flagRegister) ∧ word.family = 0x8 ∧
      (0x4 ≤ word.last.val ∧ word.last.val ≤ 0x7 ∨ word.last.val = 0xE) ∨
    r = flagRegister ∧ word.family = 0xD ∨
    r ≤ word.x ∧ word.family = 0xF ∧ word.low = 0x65

instance (word : Word) (r : Register) : Decidable (word.MayChange r) :=
  inferInstanceAs (Decidable (_ ∨ _))

namespace Machine

/-- What executing a word changes, at most. The program counter is left open. -/
structure Footprint (machine : Machine) (word : Word) (final : Machine) : Prop where
  config : final.config = machine.config
  memory : ∀ cell : Fin 4096, final.memory.cells.get cell ≠ machine.memory.cells.get cell →
    word.family = 0xF ∧ ∃ offset : Nat,
      cell.val = (machine.registers.i + UInt16.ofNat offset).toNat ∧
        (word.low = 0x33 ∧ offset ≤ 2 ∨ word.low = 0x55 ∧ offset ≤ word.x.val)
  stack : ∀ slot : Fin 16, final.stack.slots.get slot ≠ machine.stack.slots.get slot →
    word.family = 0x2 ∧ (slot.val : Int) = machine.registers.sp.toInt + 1
  sp : final.registers.sp ≠ machine.registers.sp → word.family = 0x2 ∨ word = 0x00EE
  pixels : final.screen.pixels ≠ machine.screen.pixels → word = 0x00E0 ∨ word.family = 0xD
  clipNoted : final.screen.clipNoted ≠ machine.screen.clipNoted → word.family = 0xD
  wrap : final.screen.wrap = machine.screen.wrap
  delay : final.registers.delay ≠ machine.registers.delay → word.family = 0xF ∧ word.low = 0x15
  sound : final.registers.sound ≠ machine.registers.sound → word.family = 0xF ∧ word.low = 0x18
  index : final.registers.i ≠ machine.registers.i → word.family = 0xA ∨ word.family = 0xF ∧
    (word.low = 0x1E ∨ word.low = 0x29 ∨ word.low = 0x55 ∨ word.low = 0x65)
  random : final.random ≠ machine.random → word.family = 0xC
  awaiting : final.awaiting ≠ machine.awaiting → word.family = 0xF ∧ word.low = 0x0A
  lastWord : final.lastWord ≠ machine.lastWord → final.lastWord = word
  v : ∀ r, final.registers.getV r ≠ machine.registers.getV r → word.MayChange r

namespace Footprint

variable {machine final : Machine} {word : Word}

/-- Nothing changes. What an instruction leaves alone is taken from here. -/
theorem refl (machine : Machine) (word : Word) : machine.Footprint word machine where
  config := rfl
  memory _ hChanged := absurd rfl hChanged
  stack _ hChanged := absurd rfl hChanged
  sp hChanged := absurd rfl hChanged
  pixels hChanged := absurd rfl hChanged
  clipNoted hChanged := absurd rfl hChanged
  wrap := rfl
  delay hChanged := absurd rfl hChanged
  sound hChanged := absurd rfl hChanged
  index hChanged := absurd rfl hChanged
  random hChanged := absurd rfl hChanged
  awaiting hChanged := absurd rfl hChanged
  lastWord hChanged := absurd rfl hChanged
  v _ hChanged := absurd rfl hChanged

theorem setV (h : machine.Footprint word final) {x : Register} (hV : word.MayChange x)
    (value : UInt8) : machine.Footprint word (final.setV x value) :=
  { h with
    v := by
      intro r hChanged
      by_cases hSame : x = r
      · exact hSame ▸ hV
      · apply h.v
        rwa [Machine.setV, Registers.getV_setV, if_neg hSame] at hChanged }

theorem jumpTo (h : machine.Footprint word final) (address : UInt16) :
    machine.Footprint word (final.jumpTo address) :=
  { h with }

theorem passBlock (h : machine.Footprint word final) (hFamily : word.family = 0xF)
    (hLow : word.low = 0x55 ∨ word.low = 0x65) (x : Register) :
    machine.Footprint word (final.passBlock x) := by
  unfold Machine.passBlock
  split
  · exact h
  · exact { h with index := fun _ => .inr ⟨hFamily, .inr (.inr hLow)⟩ }

end Footprint

variable {machine : Machine} {word : Word}

theorem footprint_ret (h : word = 0x00EE) : machine.Footprint word machine.ret.machine := by
  cases hPop : machine.stack.pop machine.registers.sp with
  | ok popped =>
      rw [ret_of_pop_eq_ok hPop]
      exact { Footprint.refl machine word with sp := fun _ => .inr h }
  | error fault =>
      rw [ret_of_pop_eq_error hPop]
      cases machine.config.strict <;> exact .refl machine word

theorem footprint_call (h : word.family = 0x2) (address : UInt16) :
    machine.Footprint word (machine.call address).machine := by
  cases hPush : machine.stack.push machine.registers.sp machine.registers.pc with
  | ok pushed =>
      rw [call_of_push_eq_ok hPush]
      exact { Footprint.refl machine word with
        sp := fun _ => .inl h
        stack := fun _ hChanged => ⟨h, CallStack.toInt_of_get_push_ne hPush hChanged⟩ }
  | error fault =>
      rw [call_of_push_eq_error hPush]
      cases machine.config.strict with
      | true => exact .refl machine word
      | false => exact (Footprint.refl machine word).jumpTo address

theorem footprint_skipWhen (condition : Bool) :
    machine.Footprint word (machine.skipWhen condition) := by
  unfold skipWhen
  split
  · exact (Footprint.refl machine word).jumpTo _
  · exact .refl machine word

/-- The flag goes into VF; the result, with or without it, goes into Vx. -/
theorem footprint_applyArithmetic {operation : Arithmetic} {x y : Register}
    (h : word.Encodes (.arithmetic operation x y)) :
    machine.Footprint word (machine.applyArithmetic operation x y) := by
  obtain ⟨hFamily, hLast, rfl, rfl⟩ := h
  have hFlag := operation.flag_apply_eq_none_iff machine.config.shiftInPlace
    (machine.registers.getV word.x) (machine.registers.getV word.y)
  rw [← hLast] at hFlag
  unfold applyArithmetic
  split
  · next result hApply =>
      rw [hApply] at hFlag
      have hResult : word.MayChange word.x :=
        .inl ⟨rfl, .inr (.inr (.inl ⟨hFamily, hFlag.mp rfl⟩))⟩
      exact (Footprint.refl machine word).setV hResult result
  · next result flag hApply =>
      rw [hApply] at hFlag
      have hDigit : 0x4 ≤ word.last.val ∧ word.last.val ≤ 0x7 ∨ word.last.val = 0xE := by
        rw [hLast] at hFlag ⊢
        exact Arithmetic.digit_of_flag (mt hFlag.mpr (Option.some_ne_none flag))
      have hBoth (r : Register) (hr : r = word.x ∨ r = flagRegister) : word.MayChange r :=
        .inr (.inl ⟨hr, hFamily, hDigit⟩)
      exact ((Footprint.refl machine word).setV (hBoth _ (.inr rfl)) flag).setV
        (hBoth _ (.inl rfl)) result

theorem footprint_draw (h : word.family = 0xD) (x y : Register) (rows : Fin 16) :
    machine.Footprint word (machine.draw x y rows).machine := by
  unfold draw
  split
  · exact .refl machine word
  · apply Footprint.setV
    · exact { Footprint.refl machine word with
        pixels := fun _ => .inr h
        clipNoted := fun _ => h
        wrap := by
          dsimp only
          rw [Screen.value_draw]
          exact Drawn.wrap_flipAll .. }
    · exact .inr (.inr (.inl ⟨rfl, h⟩))

theorem footprint_writeBlock {bytes : List UInt8} (hFamily : word.family = 0xF)
    (hLow : ∀ offset < bytes.length,
      word.low = 0x33 ∧ offset ≤ 2 ∨ word.low = 0x55 ∧ offset ≤ word.x.val) :
    machine.Footprint word (machine.writeBlock machine.registers.i bytes).machine := by
  have hCells (cell : Fin 4096) (hChanged :
      (machine.writeBlock machine.registers.i bytes).machine.memory.cells.get cell ≠
        machine.memory.cells.get cell) :
      ∃ offset < bytes.length,
        cell.val = (machine.registers.i + UInt16.ofNat offset).toNat := by
    apply Decidable.byContradiction
    intro hNone
    apply hChanged
    apply get_cells_writeBlock
    intro offset hOffset hCell
    exact hNone ⟨offset, hOffset, hCell⟩
  obtain ⟨memory, hFinal⟩ := machine.machine_writeBlock machine.registers.i bytes
  rw [hFinal] at hCells ⊢
  exact { Footprint.refl machine word with
    memory := by
      intro cell hChanged
      obtain ⟨offset, hOffset, hCell⟩ := hCells cell hChanged
      exact ⟨hFamily, offset, hCell, hLow offset hOffset⟩ }

theorem footprint_readBlock (hFamily : word.family = 0xF) (hLow : word.low = 0x65) :
    machine.Footprint word (machine.readBlock machine.registers.i (upTo word.x)).machine := by
  have hRegisters (r : Register) (hChanged :
      (machine.readBlock machine.registers.i (upTo word.x)).machine.registers.getV r ≠
        machine.registers.getV r) : r ≤ word.x := by
    apply Decidable.byContradiction
    intro hAbove
    exact hChanged (getV_readBlock (mt (mem_upTo word.x r).mp hAbove) _)
  obtain ⟨v, hFinal⟩ := machine.machine_readBlock machine.registers.i (upTo word.x)
  rw [hFinal] at hRegisters ⊢
  exact { Footprint.refl machine word with
    v := fun r hChanged => .inr (.inr (.inr ⟨hRegisters r hChanged, hFamily, hLow⟩)) }

/-- An instruction changes no more than what a word that encodes it may change. -/
theorem footprint_execute (machine : Machine) (held : UInt8 → Bool) {instruction : Instruction}
    (h : word.Encodes instruction) :
    machine.Footprint word (machine.execute held instruction).machine := by
  have hSame := Footprint.refl machine word
  cases instruction with
  | clear => exact { hSame with pixels := fun _ => .inl h }
  | ret => exact footprint_ret h
  | hostRoutine target => exact hSame
  | jump target => exact hSame.jumpTo _
  | call target => exact footprint_call h.1 _
  | skipIf condition => exact footprint_skipWhen _
  | setByte x k =>
      obtain ⟨hFamily, rfl, rfl⟩ := h
      exact hSame.setV (.inl ⟨rfl, .inl hFamily⟩) _
  | addByte x k =>
      obtain ⟨hFamily, rfl, rfl⟩ := h
      exact hSame.setV (.inl ⟨rfl, .inr (.inl hFamily)⟩) _
  | arithmetic operation x y => exact footprint_applyArithmetic h
  | setIndex target => exact { hSame with index := fun _ => .inl h.1 }
  | jumpOffset target => exact hSame.jumpTo _
  | random x mask =>
      obtain ⟨hFamily, rfl, rfl⟩ := h
      have hRandom : machine.Footprint word
          { machine with random := machine.random.nextByte.2 } :=
        { hSame with random := fun _ => hFamily }
      exact hRandom.setV (.inl ⟨rfl, .inr (.inr (.inr (.inl hFamily)))⟩) _
  | draw x y rows => exact footprint_draw h.1 x y rows
  | readDelay x =>
      obtain ⟨hFamily, hLow, rfl⟩ := h
      exact hSame.setV (.inl ⟨rfl, .inr (.inr (.inr (.inr ⟨hFamily, hLow⟩)))⟩) _
  | awaitKey x => exact { hSame with awaiting := fun _ => ⟨h.1, h.2.1⟩ }
  | setDelay x => exact { hSame with delay := fun _ => ⟨h.1, h.2.1⟩ }
  | setSound x => exact { hSame with sound := fun _ => ⟨h.1, h.2.1⟩ }
  | addIndex x => exact { hSame with index := fun _ => .inr ⟨h.1, .inl h.2.1⟩ }
  | glyph x => exact { hSame with index := fun _ => .inr ⟨h.1, .inr (.inl h.2.1)⟩ }
  | decimal x =>
      obtain ⟨hFamily, hLow, rfl⟩ := h
      apply footprint_writeBlock hFamily
      intro offset hOffset
      exact .inl ⟨hLow, Nat.le_of_lt_succ hOffset⟩
  | store x =>
      obtain ⟨hFamily, hLow, rfl⟩ := h
      apply Outcome.andThen_keeps (motive := machine.Footprint word)
      · apply footprint_writeBlock hFamily
        intro offset hOffset
        rw [List.length_map, length_upTo] at hOffset
        exact .inr ⟨hLow, Nat.le_of_lt_succ hOffset⟩
      · intro stored hStored
        exact hStored.passBlock hFamily (.inl hLow) word.x
  | load x =>
      obtain ⟨hFamily, hLow, rfl⟩ := h
      apply Outcome.andThen_keeps (motive := machine.Footprint word)
      · exact footprint_readBlock hFamily hLow
      · intro loaded hLoaded
        exact hLoaded.passBlock hFamily (.inr hLow) word.x

end Machine

end Chip8
