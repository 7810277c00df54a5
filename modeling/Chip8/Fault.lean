import Chip8.Text.Hex

/-!
What can go wrong. A fault is a cause with its data; `Fault.message` holds all of the wording. An
action that may go wrong is an attempt: it leaves a state behind in either case.
-/

namespace Chip8

/-- The ways in which loading, configuring or running a machine fails. -/
inductive Fault
  /-- A program of `size` bytes where at most `limit` fit. -/
  | programTooLarge (size limit : Nat)
  | outOfRange (address : UInt16)
  | stackOverflow (address : UInt16)
  | stackUnderflow
  /-- A machine cannot run at zero instructions per second. -/
  | zeroFrequency
  /-- The source of a program failed; `reason` is its own text. -/
  | unreadable (reason : String)
  deriving DecidableEq

def Fault.message : Fault → String
  | .programTooLarge size limit =>
    "ROM is too large (" ++ size.repr ++ " bytes), max size is " ++ limit.repr ++ " bytes"
  | .outOfRange address => "memory access out of range at address 0x" ++ Hex.word 4 address
  | .stackOverflow address =>
    "stack overflow: no slot left to push return address 0x" ++ Hex.word 4 address
  | .stackUnderflow => "stack underflow: return with an empty call stack"
  | .zeroFrequency => "cpu frequency must be greater than 0 Hz"
  | .unreadable reason => "failed to read ROM: " ++ reason

/-- What an action on a state ended in: its answer, or the fault that it met, and the state that it
left behind either way. -/
structure Attempt (σ α : Type) where
  answer : Except Fault α
  state : σ

namespace Attempt

variable {σ α : Type}

/-- Ends in an answer. -/
def done (state : σ) (answer : α) : Attempt σ α := ⟨.ok answer, state⟩

/-- Is cut short by a fault. -/
def fail (state : σ) (fault : Fault) : Attempt σ α := ⟨.error fault, state⟩

/-- The answer with the state behind it, for a caller that goes on only if there is an answer. -/
def toExcept (attempt : Attempt σ α) : Except Fault (α × σ) :=
  attempt.answer.map fun answer => (answer, attempt.state)

/-- Whether an attempt leaves a state as it was before if it meets a fault. -/
def IsAtomic (attempt : Attempt σ α) (before : σ) : Prop :=
  ∀ fault, attempt.answer = .error fault → attempt.state = before

variable {attempt : Attempt σ α} {state before : σ} {answer : α} {fault : Fault}

theorem isAtomic_done : (done state answer).IsAtomic before := by
  intro fault h
  cases h

theorem isAtomic_fail : (fail before fault : Attempt σ α).IsAtomic before :=
  fun _ _ => rfl

theorem toExcept_eq_ok_iff :
    attempt.toExcept = .ok (answer, state) ↔ attempt = done state answer := by
  obtain ⟨_ | answer, state⟩ := attempt <;> simp [toExcept, done, Except.map]

theorem IsAtomic.toExcept_eq_error_iff (h : attempt.IsAtomic before) :
    attempt.toExcept = .error fault ↔ attempt = fail before fault := by
  obtain ⟨error | answer, state⟩ := attempt
  · obtain rfl : state = before := h error rfl
    simp [toExcept, fail, Except.map]
  · simp [toExcept, fail, Except.map]

end Attempt

end Chip8
