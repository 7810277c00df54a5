import Chip8.Keys.Keypad
import Chip8.Proofs.Instruction.Encoding
import Chip8.Proofs.Machine.Transfers

/-!
Block transfers inside of memory. There no transfer is cut short and no byte is lost: after either
one the cells of the block hold the registers V0 to Vx. So storing and loading undo each other,
whether the machine is strict or not.
-/

namespace Chip8

/-- Whether the cells from `start` on hold the registers V0 to Vx. -/
def Memory.Holds (memory : Memory) (start : Nat) (registers : Registers) (x : Register) : Prop :=
  ∀ r ≤ x, memory.cells[start + r.val]? = some (registers.getV r)

namespace Memory

variable {memory other : Memory} {start : Nat} {registers : Registers} {x : Register}

/-- A block of memory determines the registers that it holds. -/
theorem Holds.getV_eq {others : Registers} (h : memory.Holds start registers x)
    (hOthers : memory.Holds start others x) {r : Register} (hr : r ≤ x) :
    others.getV r = registers.getV r :=
  Option.some.inj ((hOthers r hr).symm.trans (h r hr))

/-- The registers of a block determine memory, but for what is outside of the block. -/
theorem Holds.memory_eq (h : memory.Holds start registers x)
    (hOther : other.Holds start registers x)
    (hOutside : ∀ cell : Fin 4096, cell.val < start ∨ start + x.val < cell.val →
      other.cells.get cell = memory.cells.get cell) : other = memory := by
  apply ext_cells
  intro cell
  by_cases hCell : cell.val < start ∨ start + x.val < cell.val
  · exact hOutside cell hCell
  · let r : Register := ⟨cell.val - start, by omega⟩
    have hr : r ≤ x := show cell.val - start ≤ x.val by omega
    have hPlace : start + r.val = cell.val := by
      change start + (cell.val - start) = cell.val
      omega
    have hSame := (hOther r hr).trans (h r hr).symm
    rw [hPlace, Vector.getElem?_eq_getElem cell.isLt, Vector.getElem?_eq_getElem cell.isLt] at hSame
    exact Option.some.inj hSame

theorem holds_overlay (memory : Memory) (registers : Registers) (h : start + x.val < 4096) :
    (memory.overlay start ((Machine.upTo x).map registers.getV)).Holds start registers x := by
  intro r hr
  have hReach : r.val ≤ x.val := hr
  have hLength : ((Machine.upTo x).map registers.getV).length = x.val + 1 := by
    rw [List.length_map, Machine.length_upTo]
  rw [memory.getElem?_cells_overlay (by omega) (by omega), List.getElem?_map,
    Machine.getElem?_upTo hr]
  rfl

theorem holds_loadedFrom (memory : Memory) (registers : Registers) (h : start + x.val < 4096) :
    memory.Holds start (registers.loadedFrom memory start x) x := by
  intro r hr
  have hReach : r.val ≤ x.val := hr
  rw [Registers.getV_loadedFrom, if_pos hr, Vector.getElem?_eq_getElem (by omega)]
  rfl

end Memory

/-- An outcome without a fault goes on with an action that always succeeds. -/
theorem Outcome.andThen_done_of_fault_eq_none {outcome : Outcome} (h : outcome.fault = none)
    (next : Machine → Machine) :
    (outcome.andThen fun machine => .done (next machine)) =
      ⟨next outcome.machine, outcome.notices, none⟩ := by
  simp [andThen, h, after, done]

namespace Machine

/-- Behind a transfer that left them alone, the settings and I say where I is moved. -/
theorem toNat_i_passBlock {machine final : Machine} {x : Register}
    (hConfig : final.config = machine.config) (hIndex : final.registers.i = machine.registers.i)
    (h : machine.registers.i.toNat + x.val < 4096) :
    (final.passBlock x).registers.i.toNat =
      if machine.config.keepIndex then machine.registers.i.toNat
      else machine.registers.i.toNat + x.val + 1 := by
  have hLast : (machine.registers.i + UInt16.ofNat x.val).toNat =
      machine.registers.i.toNat + x.val := Memory.toNat_add_ofNat (by omega)
  rw [passBlock, hConfig]
  split
  · rw [hIndex]
  · rw [setIndex, hIndex, ← hLast]
    exact Memory.toNat_add_one (by omega)

/-- What storing V0 to Vx in the cells that I points at comes to if it succeeds. -/
structure StoresBlock (machine : Machine) (x : Register) (outcome : Outcome) : Prop where
  fault : outcome.fault = none
  holds : outcome.machine.memory.Holds machine.registers.i.toNat machine.registers x
  outside : ∀ cell : Fin 4096,
    cell.val < machine.registers.i.toNat ∨ machine.registers.i.toNat + x.val < cell.val →
    outcome.machine.memory.cells.get cell = machine.memory.cells.get cell
  others : outcome.machine =
    { machine with
      memory := outcome.machine.memory, registers.i := outcome.machine.registers.i }
  i : outcome.machine.registers.i.toNat =
    if machine.config.keepIndex then machine.registers.i.toNat
    else machine.registers.i.toNat + x.val + 1

/-- What loading V0 to Vx from the cells that I points at comes to if it succeeds. -/
structure LoadsBlock (machine : Machine) (x : Register) (outcome : Outcome) : Prop where
  fault : outcome.fault = none
  holds : machine.memory.Holds machine.registers.i.toNat outcome.machine.registers x
  outside : ∀ r, x < r → outcome.machine.registers.getV r = machine.registers.getV r
  others : outcome.machine =
    { machine with
      registers.v := outcome.machine.registers.v, registers.i := outcome.machine.registers.i }
  i : outcome.machine.registers.i.toNat =
    if machine.config.keepIndex then machine.registers.i.toNat
    else machine.registers.i.toNat + x.val + 1

variable {machine : Machine} {x : Register}

theorem storesBlock_execute (h : machine.registers.i.toNat + x.val < 4096)
    (held : UInt8 → Bool) : machine.StoresBlock x (machine.execute held (.store x)) := by
  have hLength : ((upTo x).map machine.registers.getV).length = x.val + 1 := by
    rw [List.length_map, length_upTo]
  have hFault : (machine.writeBlock machine.registers.i
      ((upTo x).map machine.registers.getV)).fault = none := by
    rw [writeBlock_eq_accessEach, isBounded_writeByte.fault_accessEach, if_neg (by omega)]
  rw [execute, Outcome.andThen_done_of_fault_eq_none hFault,
    machine.machine_writeBlock_eq_overlay (.inr (by omega)), passBlock_eq]
  exact {
    fault := rfl
    holds := machine.memory.holds_overlay machine.registers h
    outside := fun cell hCell => machine.memory.get_cells_overlay_of_outside (by omega)
    others := rfl
    i := toNat_i_passBlock rfl rfl h }

theorem loadsBlock_execute (h : machine.registers.i.toNat + x.val < 4096)
    (held : UInt8 → Bool) : machine.LoadsBlock x (machine.execute held (.load x)) := by
  have hFault : (machine.readBlock machine.registers.i (upTo x)).fault = none := by
    rw [readBlock_eq_accessEach, isBounded_loadV.fault_accessEach, length_upTo, if_neg (by omega)]
  -- Only V0 to VF are another, and their values are only looked at where they matter.
  obtain ⟨v, hFinal⟩ := machine.machine_readBlock machine.registers.i (upTo x)
  have hLoaded : { machine.registers with v := v } =
      machine.registers.loadedFrom machine.memory machine.registers.i.toNat x :=
    congrArg Machine.registers (hFinal.symm.trans (machine_readBlock_eq_loadedFrom (.inr h)))
  have hHolds := machine.memory.holds_loadedFrom machine.registers h
  have hOutside (r : Register) := machine.registers.getV_loadedFrom machine.memory
    machine.registers.i.toNat x r
  rw [← hLoaded] at hHolds hOutside
  rw [execute, Outcome.andThen_done_of_fault_eq_none hFault, hFinal, passBlock_eq]
  exact {
    fault := rfl
    holds := hHolds
    outside := fun r hr => (hOutside r).trans (if_neg (Fin.not_le.mpr hr))
    others := rfl
    i := toNat_i_passBlock rfl rfl h }

/-- Storing V0 to Vx and loading them, inside of memory, always succeed and undo each other: what
was stored is loaded into whatever registers there are, and what was loaded is stored over what it
came from. -/
theorem transfers_undo_each_other (machine : Machine) (x : Register)
    (hInside : machine.registers.i.toNat + x.val ≤ 0xFFF) (held : UInt8 → Bool) :
    let stored := machine.execute held (.store x)
    let loaded := machine.execute held (.load x)
    (∀ word : Word, word.family = 0xF ∧ word.x = x →
      (word.low = 0x55 → word.decode = some (.store x)) ∧
      (word.low = 0x65 → word.decode = some (.load x))) ∧
    machine.StoresBlock x stored ∧
    machine.LoadsBlock x loaded ∧
    (∀ other : Machine, other.memory = stored.machine.memory →
      other.registers.i = machine.registers.i →
      let again := other.execute held (.load x)
      again.fault = none ∧
      (∀ r ≤ x, again.machine.registers.getV r = machine.registers.getV r) ∧
      ∀ r, x < r → again.machine.registers.getV r = other.registers.getV r) ∧
    ∀ other : Machine, other.memory = loaded.machine.memory →
      other.registers.i = machine.registers.i →
      (∀ r ≤ x, other.registers.getV r = loaded.machine.registers.getV r) →
      let again := other.execute held (.store x)
      again.fault = none ∧ again.machine.memory = machine.memory := by
  intro stored loaded
  have hStored : machine.StoresBlock x stored :=
    storesBlock_execute (Nat.lt_succ_of_le hInside) held
  have hLoaded : machine.LoadsBlock x loaded :=
    loadsBlock_execute (Nat.lt_succ_of_le hInside) held
  refine ⟨?_, hStored, hLoaded, ?_, ?_⟩
  · rintro word ⟨hFamily, rfl⟩
    exact ⟨fun hLow => Word.decode_of_encodes ⟨hFamily, hLow, rfl⟩,
      fun hLow => Word.decode_of_encodes ⟨hFamily, hLow, rfl⟩⟩
  · intro other hMemory hIndex again
    have hAgain : other.LoadsBlock x again :=
      loadsBlock_execute (hIndex ▸ Nat.lt_succ_of_le hInside) held
    have hHolds := hAgain.holds
    rw [hMemory, hIndex] at hHolds
    exact ⟨hAgain.fault, fun r hr => hStored.holds.getV_eq hHolds hr, hAgain.outside⟩
  · intro other hMemory hIndex hRegisters again
    have hAgain : other.StoresBlock x again :=
      storesBlock_execute (hIndex ▸ Nat.lt_succ_of_le hInside) held
    have hKept : loaded.machine.memory = machine.memory := by rw [hLoaded.others]
    have hHolds := hAgain.holds
    have hOutside := hAgain.outside
    rw [hIndex] at hHolds hOutside
    rw [hMemory, hKept] at hOutside
    refine ⟨hAgain.fault, hLoaded.holds.memory_eq (fun r hr => ?_) hOutside⟩
    rw [← hRegisters r hr]
    exact hHolds r hr

/-- Two registers stored in the last two cells of a strict machine come back after V0 to VF have
been cleared. -/
theorem transfers_undo_each_other_at_end_of_memory :
    let machine : Machine :=
      { Machine.initial { strict := true } (.ofSeed 0) with
          registers := { Registers.initial with
            i := 0xFFE, v := Vector.ofFn fun r => UInt8.ofNat (r.val + 1) } }
    let held : UInt8 → Bool := KeyInput.isHeld Keypad.initial
    let stored := (machine.execute held (.store 1)).machine
    let cleared : Machine :=
      { stored with
          registers := { stored.registers with i := 0xFFE, v := Vector.replicate 16 0 } }
    let again := cleared.execute held (.load 1)
    machine.registers.i.toNat + (1 : Register).val ≤ 0xFFF ∧
    (machine.execute held (.store 1)).fault = none ∧
    again.fault = none ∧
    again.machine.registers.getV 0 = 1 ∧
    again.machine.registers.getV 1 = 2 ∧
    again.machine.registers.getV 2 = 0 := by
  intro machine held stored cleared again
  have hInside : machine.registers.i.toNat + (1 : Register).val ≤ 0xFFF := by decide
  obtain ⟨-, hStored, -, hBack, -⟩ := transfers_undo_each_other machine 1 hInside held
  obtain ⟨hFault, hRestored, hOthers⟩ := hBack cleared rfl rfl
  exact ⟨hInside, hStored.fault, hFault, hRestored 0 (by decide), hRestored 1 (by decide),
    hOthers 2 (by decide)⟩

end Machine

end Chip8
