import Chip8.CallStack
import Chip8.Memory.Source
import Chip8.Random
import Chip8.Registers
import Chip8.Screen

/-!
A machine: all that a program can observe or change, apart from the keys and the time. What a
machine does is given by `Chip8.Machine.step`; time passes for it by `Chip8.Machine.tickTimers`.
-/

namespace Chip8

/-- The state of a machine. -/
structure Machine where
  config : Config
  memory : Memory
  stack : CallStack
  registers : Registers
  screen : Screen
  random : RandomSource
  /-- The register that waits for a key press; while there is one, nothing is executed. -/
  awaiting : Option Register
  /-- The word fetched last; zero at first. -/
  lastWord : Word

namespace Machine

def initial (config : Config) (random : RandomSource) : Machine where
  config := config
  memory := .initial
  stack := .initial
  registers := .initial
  screen := .blank config.wrap
  random := random
  awaiting := none
  lastWord := 0

/-- Loads a program and gives its size as well; nothing else of the machine changes. -/
def load (machine : Machine) (program : List UInt8) : Except Fault (Nat × Machine) :=
  (machine.memory.load program).map fun (size, memory) => (size, { machine with memory := memory })

def loadFrom (machine : Machine) (source : Source) : Except Fault (Nat × Machine) :=
  (machine.memory.loadFrom source).map fun (size, memory) =>
    (size, { machine with memory := memory })

/-- The call stack and the register that points at its top. -/
def pointed (machine : Machine) : CallStack.Pointed :=
  ⟨machine.stack, machine.registers.sp⟩

def withPointed (machine : Machine) (pointed : CallStack.Pointed) : Machine :=
  { machine with stack := pointed.stack, registers.sp := pointed.sp }

/-- A machine one timer tick later. -/
def tickTimers (machine : Machine) : Machine :=
  { machine with registers := machine.registers.tick }

def setV (machine : Machine) (x : Register) (value : UInt8) : Machine :=
  { machine with registers := machine.registers.setV x value }

def jumpTo (machine : Machine) (address : UInt16) : Machine :=
  { machine with registers.pc := address }

def setIndex (machine : Machine) (address : UInt16) : Machine :=
  { machine with registers.i := address }

/-- Passes over the next instruction if a condition holds. -/
def skipWhen (machine : Machine) (condition : Bool) : Machine :=
  if condition then machine.jumpTo (machine.registers.pc + 2) else machine

end Machine

end Chip8
