import Chip8.Machine.Outcome

/-!
Access to memory and to the call stack. A strict machine stops with a fault where an access is
not possible; any other machine remarks on it and goes on.
-/

namespace Chip8.Machine

def readByte (machine : Machine) (address : UInt16) : Logged (Except Fault UInt8) :=
  if machine.config.strict then pure (machine.memory.tryGet address)
  else Except.ok <$> machine.memory.get address

def writeByte (machine : Machine) (address : UInt16) (value : UInt8) : Outcome :=
  if machine.config.strict then
    let attempt := machine.memory.attemptSet address value
    let machine := { machine with memory := attempt.state }
    match attempt.answer with
    | .ok () => .done machine
    | .error fault => .fail machine fault
  else
    let written := machine.memory.set address value
    ⟨{ machine with memory := written.value }, written.notices, none⟩

/-- Stores bytes at consecutive addresses, one after another. -/
def writeBlock (machine : Machine) (address : UInt16) : List UInt8 → Outcome
  | [] => .done machine
  | byte :: rest =>
    (machine.writeByte address byte).andThen fun machine => machine.writeBlock (address + 1) rest

/-- Loads a register with the byte at an address. -/
def loadV (machine : Machine) (x : Register) (address : UInt16) : Outcome :=
  let byte := machine.readByte address
  match byte.value with
  | .ok value => ⟨machine.setV x value, byte.notices, none⟩
  | .error fault => ⟨machine, byte.notices, some fault⟩

/-- Loads registers from consecutive addresses, one after another. -/
def readBlock (machine : Machine) (address : UInt16) : List Register → Outcome
  | [] => .done machine
  | x :: rest =>
    (machine.loadV x address).andThen fun machine => machine.readBlock (address + 1) rest

def fetch (machine : Machine) : Logged (Except Fault Word) := do
  match ← machine.readByte machine.registers.pc with
  | .error fault => return .error fault
  | .ok high =>
    let low ← machine.readByte (machine.registers.pc + 1)
    return low.map (Word.ofBytes high)

/-- Keeps the program counter on the call stack and goes on at an address. Without strictness a
full stack keeps nothing. -/
def call (machine : Machine) (address : UInt16) : Outcome :=
  let attempt := machine.pointed.push machine.registers.pc
  let machine := machine.withPointed attempt.state
  match attempt.answer with
  | .ok () => .done (machine.jumpTo address)
  | .error fault =>
    if machine.config.strict then .fail machine fault
    else ⟨machine.jumpTo address, [.callWithoutReturn machine.registers.pc], none⟩

/-- Goes on at the address on top of the call stack. Without strictness an empty stack lets the
machine go on where it is. -/
def ret (machine : Machine) : Outcome :=
  let attempt := machine.pointed.pop
  let machine := machine.withPointed attempt.state
  match attempt.answer with
  | .ok address => .done (machine.jumpTo address)
  | .error fault =>
    if machine.config.strict then .fail machine fault
    else ⟨machine, [.returnWithoutCall], none⟩

variable {machine : Machine} {memory : Memory} {stack : CallStack} {sp : Int8} {address : UInt16}
  {value : UInt8} {fault : Fault}

theorem writeByte_of_trySet_eq_ok (h : machine.memory.trySet address value = .ok memory) :
    machine.writeByte address value = .done { machine with memory := memory } := by
  rw [writeByte, Memory.set_of_trySet_eq_ok h, Memory.trySet_eq_ok_iff.mp h]
  cases machine.config.strict <;> rfl

theorem writeByte_of_trySet_eq_error (h : machine.memory.trySet address value = .error fault) :
    machine.writeByte address value =
      if machine.config.strict then .fail machine fault
      else ⟨machine, [.writeBeyondMemory address value], none⟩ := by
  rw [writeByte, Memory.set_of_trySet_eq_error h, Memory.trySet_eq_error_iff.mp h]
  rfl

theorem call_of_push_eq_ok
    (h : machine.stack.push machine.registers.sp machine.registers.pc = .ok (stack, sp))
    (address : UInt16) :
    machine.call address = .done ((machine.withPointed ⟨stack, sp⟩).jumpTo address) := by
  rw [call, pointed, CallStack.push_eq_ok_iff.mp h]
  rfl

theorem call_of_push_eq_error
    (h : machine.stack.push machine.registers.sp machine.registers.pc = .error fault)
    (address : UInt16) :
    machine.call address =
      if machine.config.strict then .fail machine fault
      else ⟨machine.jumpTo address, [.callWithoutReturn machine.registers.pc], none⟩ := by
  rw [call, pointed, CallStack.push_eq_error_iff.mp h]
  rfl

theorem ret_of_pop_eq_ok
    (h : machine.stack.pop machine.registers.sp = .ok (address, sp)) :
    machine.ret = .done ((machine.withPointed ⟨machine.stack, sp⟩).jumpTo address) := by
  rw [ret, pointed, CallStack.pop_eq_ok_iff.mp h]
  rfl

theorem ret_of_pop_eq_error (h : machine.stack.pop machine.registers.sp = .error fault) :
    machine.ret =
      if machine.config.strict then .fail machine fault
      else ⟨machine, [.returnWithoutCall], none⟩ := by
  rw [ret, pointed, CallStack.pop_eq_error_iff.mp h]
  rfl

end Chip8.Machine
