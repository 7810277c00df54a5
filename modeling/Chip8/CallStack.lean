import Chip8.Fault

/-!
The call stack: sixteen slots for return addresses, apart from memory. The stack pointer is a
register of its own; it names the slot on top and is -1 while the stack is empty. A pointer that
names no slot is reported, never followed.
-/

namespace Chip8

/-- The slots of the call stack. A slot above the stack pointer keeps what it held last. -/
structure CallStack where
  slots : Vector UInt16 16
  deriving DecidableEq

namespace CallStack

def initial : CallStack := ⟨Vector.replicate 16 0⟩

/-- Whether a stack pointer names a slot. -/
def IsSlot (sp : Int8) : Prop :=
  0 ≤ sp.toInt ∧ sp.toInt < 16

instance (sp : Int8) : Decidable (IsSlot sp) :=
  inferInstanceAs (Decidable (_ ∧ _))

theorem IsSlot.toNat_lt {sp : Int8} (h : IsSlot sp) : sp.toInt.toNat < 16 := by
  unfold IsSlot at h
  omega

/-- A call stack and the pointer to the slot on top of it. -/
structure Pointed where
  stack : CallStack
  sp : Int8

/-- Moves the stack pointer up and keeps an address in the slot there. -/
def Pointed.push (pointed : Pointed) (address : UInt16) : Attempt Pointed Unit :=
  if h : IsSlot (pointed.sp + 1) then
    .done ⟨⟨pointed.stack.slots.set (pointed.sp + 1).toInt.toNat address h.toNat_lt⟩,
      pointed.sp + 1⟩ ()
  else
    .fail pointed (.stackOverflow address)

/-- Takes the address in the slot on top and moves the stack pointer down. -/
def Pointed.pop (pointed : Pointed) : Attempt Pointed UInt16 :=
  if h : IsSlot pointed.sp then
    .done ⟨pointed.stack, pointed.sp - 1⟩
      (pointed.stack.slots.get ⟨pointed.sp.toInt.toNat, h.toNat_lt⟩)
  else
    .fail pointed .stackUnderflow

theorem Pointed.isAtomic_push (pointed : Pointed) (address : UInt16) :
    (pointed.push address).IsAtomic pointed := by
  unfold push
  split
  · exact Attempt.isAtomic_done
  · exact Attempt.isAtomic_fail

theorem Pointed.isAtomic_pop (pointed : Pointed) : pointed.pop.IsAtomic pointed := by
  unfold pop
  split
  · exact Attempt.isAtomic_done
  · exact Attempt.isAtomic_fail

/-- A call stack with one more address, and the stack pointer moved up. -/
def push (stack : CallStack) (sp : Int8) (address : UInt16) : Except Fault (CallStack × Int8) :=
  (Pointed.push ⟨stack, sp⟩ address).toExcept.map fun (_, pointed) => (pointed.stack, pointed.sp)

/-- The address on top of a call stack, and the stack pointer moved down. -/
def pop (stack : CallStack) (sp : Int8) : Except Fault (UInt16 × Int8) :=
  (Pointed.pop ⟨stack, sp⟩).toExcept.map fun (address, pointed) => (address, pointed.sp)

variable {stack pushed : CallStack} {sp moved : Int8} {address : UInt16} {fault : Fault}

theorem push_eq_ok_iff :
    stack.push sp address = .ok (pushed, moved) ↔
      Pointed.push ⟨stack, sp⟩ address = .done ⟨pushed, moved⟩ () := by
  rw [push, ← Attempt.toExcept_eq_ok_iff]
  cases (Pointed.push ⟨stack, sp⟩ address).toExcept with
  | ok result => obtain ⟨_, _, _⟩ := result; simp [Except.map]
  | error fault => simp [Except.map]

theorem push_eq_error_iff :
    stack.push sp address = .error fault ↔
      Pointed.push ⟨stack, sp⟩ address = .fail ⟨stack, sp⟩ fault := by
  rw [push, ← (Pointed.isAtomic_push ⟨stack, sp⟩ address).toExcept_eq_error_iff]
  cases (Pointed.push ⟨stack, sp⟩ address).toExcept <;> simp [Except.map]

/-- A pop never touches the slots. -/
theorem Pointed.stack_state_pop (pointed : Pointed) : pointed.pop.state.stack = pointed.stack := by
  unfold pop
  split <;> rfl

theorem pop_eq_ok_iff :
    stack.pop sp = .ok (address, moved) ↔
      Pointed.pop ⟨stack, sp⟩ = .done ⟨stack, moved⟩ address := by
  have hStack := Pointed.stack_state_pop ⟨stack, sp⟩
  rw [pop, ← Attempt.toExcept_eq_ok_iff]
  generalize Pointed.pop ⟨stack, sp⟩ = attempt at hStack
  obtain ⟨_ | popped, ⟨rest, last⟩⟩ := attempt
  · simp [Attempt.toExcept, Except.map]
  · obtain rfl : rest = stack := hStack
    simp [Attempt.toExcept, Except.map]

theorem pop_eq_error_iff :
    stack.pop sp = .error fault ↔ Pointed.pop ⟨stack, sp⟩ = .fail ⟨stack, sp⟩ fault := by
  rw [pop, ← (Pointed.isAtomic_pop ⟨stack, sp⟩).toExcept_eq_error_iff]
  cases (Pointed.pop ⟨stack, sp⟩).toExcept <;> simp [Except.map]

end CallStack

end Chip8
