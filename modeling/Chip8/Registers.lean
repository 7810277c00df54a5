import Chip8.Instruction

/-!
The register file: sixteen byte registers, the index, the program counter, the stack pointer and
two timers. Timers only ever count down, and a machine does not do so by itself.
-/

namespace Chip8

structure Registers where
  v : Vector UInt8 16
  /-- The index I, which points into memory. -/
  i : UInt16
  pc : UInt16
  /-- The stack pointer; -1 while the call stack is empty. -/
  sp : Int8
  delay : UInt8
  sound : UInt8
  deriving DecidableEq

/-- A timer one tick later; it stops at zero. -/
def countDown (timer : UInt8) : UInt8 :=
  if timer = 0 then 0 else timer - 1

theorem toNat_countDown (timer : UInt8) : (countDown timer).toNat = timer.toNat - 1 := by
  unfold countDown
  split
  · next hZero => rw [hZero]; rfl
  · next hZero =>
    have hPos : timer.toNat ≠ 0 := fun h => hZero (UInt8.toNat_inj.mp h)
    exact UInt8.toNat_sub_of_le timer 1 (UInt8.le_iff_toNat_le.mpr (by simpa using by omega))

namespace Registers

/-- What a machine starts with: everything zero, the program counter where programs start, and an
empty call stack. -/
def initial : Registers where
  v := Vector.replicate 16 0
  i := 0
  pc := 0x200
  sp := -1
  delay := 0
  sound := 0

def getV (registers : Registers) (x : Register) : UInt8 :=
  registers.v[x]

def setV (registers : Registers) (x : Register) (value : UInt8) : Registers :=
  { registers with v := registers.v.set x value }

theorem getV_setV (registers : Registers) (x r : Register) (value : UInt8) :
    (registers.setV x value).getV r = if x = r then value else registers.getV r := by
  simp [getV, setV, Vector.getElem_set, Fin.ext_iff]

def tick (registers : Registers) : Registers :=
  { registers with delay := countDown registers.delay, sound := countDown registers.sound }

/-- The sound timer is heard as long as more than one tick is left. -/
def isAudible (registers : Registers) : Bool :=
  1 < registers.sound

end Registers

end Chip8
