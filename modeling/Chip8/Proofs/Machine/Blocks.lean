import Chip8.Machine.Execute

/-!
What block transfers leave alone. Storing changes nothing but memory and loading nothing but the
registers V0 to VF, whether the transfer is cut short or not; and of these no more than the cells
and the registers of the block.
-/

namespace Chip8

/-- What holds after an action and is kept by the next one holds after both, also if the second one
does not take place. -/
theorem Outcome.andThen_keeps {motive : Machine → Prop} {outcome : Outcome}
    {next : Machine → Outcome} (hFirst : motive outcome.machine)
    (hNext : ∀ machine, motive machine → motive (next machine).machine) :
    motive (outcome.andThen next).machine := by
  unfold andThen
  split
  · exact hFirst
  · exact hNext _ hFirst

namespace Machine

variable (machine : Machine)

theorem machine_writeByte (address : UInt16) (value : UInt8) :
    ∃ memory, (machine.writeByte address value).machine = { machine with memory := memory } := by
  unfold writeByte
  split
  · dsimp only
    split
    · exact ⟨_, rfl⟩
    · exact ⟨_, rfl⟩
  · exact ⟨_, rfl⟩

theorem machine_writeBlock (address : UInt16) (bytes : List UInt8) :
    ∃ memory, (machine.writeBlock address bytes).machine = { machine with memory := memory } := by
  induction bytes generalizing machine address with
  | nil => exact ⟨machine.memory, rfl⟩
  | cons byte rest ih =>
      apply Outcome.andThen_keeps (motive := fun final =>
        ∃ memory, final = { machine with memory := memory })
      · exact machine.machine_writeByte address byte
      · rintro _ ⟨memory, rfl⟩
        exact ih _ _

theorem machine_loadV (x : Register) (address : UInt16) :
    ∃ v, (machine.loadV x address).machine = { machine with registers.v := v } := by
  unfold loadV
  dsimp only
  split
  · exact ⟨_, rfl⟩
  · exact ⟨machine.registers.v, rfl⟩

theorem machine_readBlock (address : UInt16) (registers : List Register) :
    ∃ v, (machine.readBlock address registers).machine = { machine with registers.v := v } := by
  induction registers generalizing machine address with
  | nil => exact ⟨machine.registers.v, rfl⟩
  | cons x rest ih =>
      apply Outcome.andThen_keeps (motive := fun final =>
        ∃ v, final = { machine with registers.v := v })
      · exact machine.machine_loadV x address
      · rintro _ ⟨v, rfl⟩
        exact ih _ _

/-- Passing a block moves I at most. -/
theorem passBlock_eq (x : Register) :
    machine.passBlock x = { machine with registers.i := (machine.passBlock x).registers.i } := by
  unfold passBlock
  split <;> rfl

theorem config_writeBlock (address : UInt16) (bytes : List UInt8) :
    (machine.writeBlock address bytes).machine.config = machine.config := by
  obtain ⟨memory, hFinal⟩ := machine.machine_writeBlock address bytes
  rw [hFinal]

theorem config_readBlock (address : UInt16) (registers : List Register) :
    (machine.readBlock address registers).machine.config = machine.config := by
  obtain ⟨v, hFinal⟩ := machine.machine_readBlock address registers
  rw [hFinal]

variable {machine}

/-- Storing a byte changes no cell but the one at its address. -/
theorem get_cells_writeByte {cell : Fin 4096} {address : UInt16} (h : cell.val ≠ address.toNat)
    (value : UInt8) :
    (machine.writeByte address value).machine.memory.cells.get cell =
      machine.memory.cells.get cell := by
  cases hSet : machine.memory.trySet address value with
  | ok written =>
      rw [writeByte_of_trySet_eq_ok hSet]
      rw [Memory.trySet_eq_ok_iff, Memory.attemptSet] at hSet
      split at hSet
      · next hAddress =>
          obtain rfl : _ = written := congrArg Attempt.state hSet
          exact Vector.getElem_set_ne hAddress cell.isLt h.symm
      · cases hSet
  | error fault =>
      rw [writeByte_of_trySet_eq_error hSet]
      cases machine.config.strict <;> rfl

/-- Storing a block changes no cell outside of it. -/
theorem get_cells_writeBlock {cell : Fin 4096} {address : UInt16} {bytes : List UInt8}
    (h : ∀ offset < bytes.length, cell.val ≠ (address + UInt16.ofNat offset).toNat) :
    (machine.writeBlock address bytes).machine.memory.cells.get cell =
      machine.memory.cells.get cell := by
  induction bytes generalizing machine address with
  | nil => rfl
  | cons byte rest ih =>
      have hRest : ∀ offset < rest.length,
          cell.val ≠ (address + 1 + UInt16.ofNat offset).toNat := by
        intro offset hOffset
        rw [← Memory.address_add_succ]
        exact h (offset + 1) (Nat.succ_lt_succ hOffset)
      apply Outcome.andThen_keeps (motive := fun final =>
        final.memory.cells.get cell = machine.memory.cells.get cell)
      · exact get_cells_writeByte (by simpa using h 0 (Nat.succ_pos _)) byte
      · intro next hNext
        rw [ih hRest, hNext]

theorem getV_loadV {x r : Register} (h : x ≠ r) (address : UInt16) :
    (machine.loadV x address).machine.registers.getV r = machine.registers.getV r := by
  unfold loadV
  dsimp only
  split
  · rw [setV, Registers.getV_setV, if_neg h]
  · rfl

/-- Loading a block changes no register but those that it is loaded into. -/
theorem getV_readBlock {registers : List Register} {r : Register} (h : r ∉ registers)
    (address : UInt16) :
    (machine.readBlock address registers).machine.registers.getV r =
      machine.registers.getV r := by
  induction registers generalizing machine address with
  | nil => rfl
  | cons x rest ih =>
      have hFirst : x ≠ r := (List.ne_of_not_mem_cons h).symm
      have hRest : r ∉ rest := List.not_mem_of_not_mem_cons h
      apply Outcome.andThen_keeps (motive := fun final =>
        final.registers.getV r = machine.registers.getV r)
      · exact getV_loadV hFirst address
      · intro next hNext
        rw [ih hRest, hNext]

theorem mem_upTo (x r : Register) : r ∈ upTo x ↔ r ≤ x := by
  revert x r
  decide

theorem length_upTo (x : Register) : (upTo x).length = x.val + 1 := by
  revert x
  decide

end Machine

end Chip8
