import Chip8.Memory.Font
import Chip8.Notice

/-!
Memory: 4096 cells of a byte each. The font lies at its start and programs are loaded at 0x200.
Every access comes in two forms. `tryGet` and `attemptSet` report an address behind the last cell
as a fault; `get` and `set` never fail, but read zero there and drop writes, with a notice.
-/

namespace Chip8

/-- The cells that addresses point at. -/
structure Memory where
  cells : Vector UInt8 4096
  deriving DecidableEq

namespace Memory

/-- Where programs are loaded, and where they start. -/
def programStart : UInt16 := 0x200

/-- The most bytes that a program can have. The last cell stays out of reach of loading. -/
def programLimit : Nat := 3583

/-- Writes bytes into consecutive cells from `start` on; those behind the last cell are lost. -/
def install (memory : Memory) (start : Nat) : List UInt8 → Memory
  | [] => memory
  | byte :: rest => install ⟨memory.cells.setIfInBounds start byte⟩ (start + 1) rest

/-- All zero, but for the font. -/
def initial : Memory :=
  install ⟨Vector.replicate 4096 0⟩ 0 font

def tryGet (memory : Memory) (address : UInt16) : Except Fault UInt8 :=
  if h : address.toNat < 4096 then .ok memory.cells[address.toNat]
  else .error (.outOfRange address)

/-- Puts another byte into the cell at an address. -/
def attemptSet (memory : Memory) (address : UInt16) (value : UInt8) : Attempt Memory Unit :=
  if h : address.toNat < 4096 then .done ⟨memory.cells.set address.toNat value⟩ ()
  else .fail memory (.outOfRange address)

/-- Memory with another byte at an address. -/
def trySet (memory : Memory) (address : UInt16) (value : UInt8) : Except Fault Memory :=
  (memory.attemptSet address value).toExcept.map (·.2)

/-- The byte at an address, or zero behind the last cell. -/
def get (memory : Memory) (address : UInt16) : Logged UInt8 :=
  match memory.tryGet address with
  | .ok byte => pure byte
  | .error _ => ⟨0, [.readBeyondMemory address]⟩

/-- Memory with another byte at an address, or as it was behind the last cell. -/
def set (memory : Memory) (address : UInt16) (value : UInt8) : Logged Memory :=
  let attempt := memory.attemptSet address value
  match attempt.answer with
  | .ok () => pure attempt.state
  | .error _ => ⟨attempt.state, [.writeBeyondMemory address value]⟩

/-- Memory with bytes at consecutive addresses, which wrap around after the sixteenth bit. -/
def setAll (memory : Memory) (address : UInt16) : List UInt8 → Logged Memory
  | [] => pure memory
  | byte :: rest => do
    let memory ← memory.set address byte
    memory.setAll (address + 1) rest

/-- At most `length` bytes from an address on; the last cell ends them. -/
def slice (memory : Memory) (address : UInt16) (length : Nat) : List UInt8 :=
  (memory.cells.toList.drop address.toNat).take length

/-- Copies a program to where programs start, unless it is too large, and answers with its size. -/
def attemptLoad (memory : Memory) (program : List UInt8) : Attempt Memory Nat :=
  if programLimit < program.length then
    .fail memory (.programTooLarge program.length programLimit)
  else
    .done (memory.install programStart.toNat program) program.length

/-- The size of a program and memory with the program in it. -/
def load (memory : Memory) (program : List UInt8) : Except Fault (Nat × Memory) :=
  (memory.attemptLoad program).toExcept

theorem tryGet_eq_error_iff (memory : Memory) (address : UInt16) (fault : Fault) :
    memory.tryGet address = .error fault ↔ 4096 ≤ address.toNat ∧ fault = .outOfRange address := by
  unfold tryGet
  split
  · simp; omega
  · simp only [Except.error.injEq]
    exact ⟨fun h => ⟨by omega, h.symm⟩, fun h => h.2.symm⟩

variable {memory written : Memory} {address : UInt16} {value : UInt8} {fault : Fault}

theorem isAtomic_attemptSet : (memory.attemptSet address value).IsAtomic memory := by
  unfold attemptSet
  split
  · exact Attempt.isAtomic_done
  · exact Attempt.isAtomic_fail

theorem trySet_eq_ok_iff :
    memory.trySet address value = .ok written ↔
      memory.attemptSet address value = .done written () := by
  rw [trySet, ← Attempt.toExcept_eq_ok_iff]
  cases (memory.attemptSet address value).toExcept with
  | ok result => obtain ⟨_, _⟩ := result; simp [Except.map]
  | error fault => simp [Except.map]

theorem trySet_eq_error_iff :
    memory.trySet address value = .error fault ↔
      memory.attemptSet address value = .fail memory fault := by
  rw [trySet, ← isAtomic_attemptSet.toExcept_eq_error_iff]
  cases (memory.attemptSet address value).toExcept <;> simp [Except.map]

theorem set_of_trySet_eq_ok (h : memory.trySet address value = .ok written) :
    memory.set address value = pure written := by
  rw [set, trySet_eq_ok_iff.mp h]
  rfl

theorem set_of_trySet_eq_error (h : memory.trySet address value = .error fault) :
    memory.set address value = ⟨memory, [.writeBeyondMemory address value]⟩ := by
  rw [set, trySet_eq_error_iff.mp h]
  rfl

theorem isAtomic_attemptLoad (memory : Memory) (program : List UInt8) :
    (memory.attemptLoad program).IsAtomic memory := by
  unfold attemptLoad
  split
  · exact Attempt.isAtomic_fail
  · exact Attempt.isAtomic_done

theorem address_add_succ (address : UInt16) (offset : Nat) :
    address + UInt16.ofNat (offset + 1) = address + 1 + UInt16.ofNat offset := by
  rw [UInt16.ofNat_add, UInt16.add_comm (UInt16.ofNat offset), UInt16.add_assoc]
  rfl

end Memory

end Chip8
