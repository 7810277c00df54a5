import Chip8.Text.Hex

/-!
The instruction set. An instruction is a typed value; how it is packed into a word is the
business of `Chip8.Word`, how a word is written that of `Chip8.Word.assembly`, and what it
does that of `Chip8.Machine.execute`.
-/

namespace Chip8

/-- One of the registers V0 to VF. -/
abbrev Register := Fin 16

/-- The register VF, which instructions overwrite with a carry, borrow, shift or collision. -/
abbrev flagRegister : Register := 15

/-- An address as far as an instruction can name it: twelve bits. -/
abbrev Target := Fin 4096

inductive Condition
  | byteEqual (x : Register) (k : UInt8)
  | byteDiffers (x : Register) (k : UInt8)
  | equal (x y : Register)
  | differs (x y : Register)
  | keyDown (x : Register)
  | keyUp (x : Register)
  deriving DecidableEq

/-- An operation on two registers that leaves its result in the first. -/
inductive Arithmetic
  | copy
  | or
  | and
  | xor
  | add
  | subtract
  | shiftRight
  | subtractFrom
  | shiftLeft
  deriving DecidableEq

inductive Instruction
  | clear
  /-- Goes on at the address on top of the call stack. -/
  | ret
  /-- Names a routine in the code of a host computer; there is none, so nothing happens. -/
  | hostRoutine (target : Target)
  | jump (target : Target)
  /-- Goes on at `target`, keeping the address to return to. -/
  | call (target : Target)
  | skipIf (condition : Condition)
  | setByte (x : Register) (k : UInt8)
  /-- The byte is added to Vx; a carry is lost. -/
  | addByte (x : Register) (k : UInt8)
  | arithmetic (operation : Arithmetic) (x y : Register)
  | setIndex (target : Target)
  /-- Goes on at V0 behind `target`. -/
  | jumpOffset (target : Target)
  /-- Vx becomes a random byte under a mask. -/
  | random (x : Register) (mask : UInt8)
  /-- Draws `rows` bytes at I with their top left corner at (Vx, Vy). -/
  | draw (x y : Register) (rows : Fin 16)
  | readDelay (x : Register)
  /-- Waits for a key press and leaves its code in Vx. -/
  | awaitKey (x : Register)
  | setDelay (x : Register)
  | setSound (x : Register)
  | addIndex (x : Register)
  /-- I becomes the address of the glyph of the digit in Vx. -/
  | glyph (x : Register)
  /-- The decimal digits of Vx are stored at I. -/
  | decimal (x : Register)
  | store (x : Register)
  | load (x : Register)
  deriving DecidableEq

end Chip8
