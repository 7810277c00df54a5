import Chip8.Machine.Access
import Chip8.Machine.Arithmetic
import Chip8.Screen.Sprite

/-!
What instructions do. When an instruction is executed the program counter stands behind it
already. Keys are only asked whether they are held.
-/

namespace Chip8

/-- Whether a skip takes place, on registers and keys as they are. -/
def Condition.holds (registers : Registers) (held : UInt8 → Bool) : Condition → Bool
  | .byteEqual x k => registers.getV x == k
  | .byteDiffers x k => registers.getV x != k
  | .equal x y => registers.getV x == registers.getV y
  | .differs x y => registers.getV x != registers.getV y
  | .keyDown x => held (registers.getV x)
  | .keyUp x => !held (registers.getV x)

namespace Machine

/-- Applies an operation to Vx and Vy. The flag is written first, so that the result replaces it
if Vx is VF. -/
def applyArithmetic (machine : Machine) (operation : Arithmetic) (x y : Register) : Machine :=
  match operation.apply machine.config.shiftInPlace (machine.registers.getV x)
    (machine.registers.getV y) with
  | (result, none) => machine.setV x result
  | (result, some flag) => (machine.setV flagRegister flag).setV x result

/-- Takes a random byte, whatever the mask. -/
def randomize (machine : Machine) (x : Register) (mask : UInt8) : Machine :=
  let (byte, random) := machine.random.nextByte
  { machine with random := random }.setV x (byte &&& mask)

/-- The address of the last row of a sprite; it does not pass the last address. -/
def spriteEnd (i : UInt16) (rows : Fin 16) : UInt16 :=
  UInt16.ofNat (min (i.toNat + rows.val - 1) 0xFFFF)

/-- The fault that keeps a strict machine from drawing: the last row is behind memory. -/
def drawFault? (machine : Machine) (rows : Fin 16) : Option Fault :=
  if machine.config.strict ∧ 0 < rows.val then
    match machine.memory.tryGet (spriteEnd machine.registers.i rows) with
    | .ok _ => none
    | .error fault => some fault
  else none

/-- Draws a sprite at (Vx, Vy) and notes a collision in VF. -/
def draw (machine : Machine) (x y : Register) (rows : Fin 16) : Outcome :=
  match machine.drawFault? rows with
  | some fault => .fail machine fault
  | none =>
    let drawn := machine.screen.draw machine.memory (machine.registers.getV x).toNat
      (machine.registers.getV y).toNat machine.registers.i rows.val
    ⟨{ machine with screen := drawn.value.screen }.setV flagRegister
      (flagByte drawn.value.collision), drawn.notices, none⟩

/-- The registers V0 to Vx. -/
def upTo (x : Register) : List Register :=
  (List.finRange 16).take (x.val + 1)

/-- Moves I behind a block of V0 to Vx, if the machine is set so. -/
def passBlock (machine : Machine) (x : Register) : Machine :=
  if machine.config.keepIndex then machine
  else machine.setIndex (machine.registers.i + UInt16.ofNat x.val + 1)

/-- Executes an instruction. -/
def execute (machine : Machine) (held : UInt8 → Bool) : Instruction → Outcome
  | .clear => .done { machine with screen := machine.screen.clear }
  | .ret => machine.ret
  | .hostRoutine _ => .done machine
  | .jump target => .done (machine.jumpTo (UInt16.ofNat target.val))
  | .call target => machine.call (UInt16.ofNat target.val)
  | .skipIf condition => .done (machine.skipWhen (condition.holds machine.registers held))
  | .setByte x k => .done (machine.setV x k)
  | .addByte x k => .done (machine.setV x (machine.registers.getV x + k))
  | .arithmetic operation x y => .done (machine.applyArithmetic operation x y)
  | .setIndex target => .done (machine.setIndex (UInt16.ofNat target.val))
  | .jumpOffset target =>
    .done (machine.jumpTo ((machine.registers.getV 0).toUInt16 + UInt16.ofNat target.val))
  | .random x mask => .done (machine.randomize x mask)
  | .draw x y rows => machine.draw x y rows
  | .readDelay x => .done (machine.setV x machine.registers.delay)
  | .awaitKey x => .done { machine with awaiting := some x }
  | .setDelay x => .done { machine with registers.delay := machine.registers.getV x }
  | .setSound x => .done { machine with registers.sound := machine.registers.getV x }
  | .addIndex x =>
    .done (machine.setIndex (machine.registers.i + (machine.registers.getV x).toUInt16))
  | .glyph x => .done (machine.setIndex (glyphAddress (machine.registers.getV x)))
  | .decimal x => machine.writeBlock machine.registers.i (decimalDigits (machine.registers.getV x))
  | .store x =>
    (machine.writeBlock machine.registers.i ((upTo x).map machine.registers.getV)).andThen
      fun machine => .done (machine.passBlock x)
  | .load x =>
    (machine.readBlock machine.registers.i (upTo x)).andThen
      fun machine => .done (machine.passBlock x)

end Machine

end Chip8
