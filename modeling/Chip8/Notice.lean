import Chip8.Config
import Chip8.Instruction.Word

/-!
Notices. A machine remarks on what it does by notices; they never change what it does. Here a
notice is a value, and `Chip8.Notice.Text` says how each one reads.
-/

namespace Chip8

/-- How much a notice matters. -/
inductive Level
  | error
  | warn
  | info
  | debug
  | trace
  deriving DecidableEq

/-- The rank of a level; the most severe one has the lowest. -/
def Level.rank : Level → Nat
  | .error => 0
  | .warn => 1
  | .info => 2
  | .debug => 3
  | .trace => 4

/-- Whether notices of level `level` are shown to a reader who asked for `limit`. -/
def Level.isShown (level limit : Level) : Bool :=
  level.rank ≤ limit.rank

/-- A remark on something that happened. -/
inductive Notice
  /-- A read behind the last cell of memory gave zero. -/
  | readBeyondMemory (address : UInt16)
  | writeBeyondMemory (address : UInt16) (value : UInt8)
  | callWithoutReturn (address : UInt16)
  | returnWithoutCall
  /-- The first pixel that fell off a screen. -/
  | pixelClipped (x y : Int32)
  | unknownKey (code : UInt8)
  /-- The schedule fell so far behind that it starts anew; the lag is in nanoseconds. -/
  | ticksSkipped (lag : Nat)
  | running (config : Config)
  | stopped
  /-- A word that encodes no instruction was passed over. -/
  | unknownWord (address : UInt16) (word : Word)
  | awaitingKey (x : Register)
  /-- A key press ended the wait. -/
  | keyStored (code : UInt8) (x : Register)
  | soundOn
  | soundOff
  /-- A word is about to be executed; the registers are as they were before. -/
  | executing (address : UInt16) (word : Word) (v : Vector UInt8 16) (i : UInt16) (sp : Int8)
  deriving DecidableEq

/-- Departures from what a program asked for are warnings. -/
def Notice.level : Notice → Level
  | .readBeyondMemory .. | .writeBeyondMemory .. | .callWithoutReturn .. | .returnWithoutCall
  | .pixelClipped .. | .unknownKey .. | .ticksSkipped .. => .warn
  | .running .. | .stopped => .info
  | .unknownWord .. | .awaitingKey .. | .keyStored .. | .soundOn | .soundOff => .debug
  | .executing .. => .trace

/-- A value together with the notices given on the way to it, oldest first. -/
structure Logged (α : Type) where
  value : α
  notices : List Notice

namespace Logged

/-- Gives a single notice. -/
def note (notice : Notice) : Logged Unit := ⟨(), [notice]⟩

instance : Monad Logged where
  pure a := ⟨a, []⟩
  bind x f :=
    let y := f x.value
    ⟨y.value, x.notices ++ y.notices⟩

variable {α β : Type}

@[simp] theorem value_pure (a : α) : (pure a : Logged α).value = a := rfl

@[simp] theorem notices_pure (a : α) : (pure a : Logged α).notices = [] := rfl

@[simp] theorem value_bind (x : Logged α) (f : α → Logged β) :
    (x >>= f).value = (f x.value).value := rfl

@[simp] theorem notices_bind (x : Logged α) (f : α → Logged β) :
    (x >>= f).notices = x.notices ++ (f x.value).notices := rfl

@[simp] theorem value_map (f : α → β) (x : Logged α) : (f <$> x).value = f x.value := rfl

@[simp] theorem notices_map (f : α → β) (x : Logged α) : (f <$> x).notices = x.notices :=
  List.append_nil x.notices

@[simp] theorem notices_note (notice : Notice) : (note notice).notices = [notice] := rfl

end Logged

end Chip8
