import Chip8.Keys
import Chip8.Machine.Execute

/-!
Steps. A machine that waits for a key asks for a press; any other one fetches the word at the
program counter, moves the counter behind it and executes it. A wait is only ended by a press
made after it began, so the presses that lie ready when it begins are thrown away.
-/

namespace Chip8

/-- What a step ended in, and the keys after it. -/
structure Stepped (κ : Type) where
  outcome : Outcome
  keys : κ

namespace Machine

/-- A machine that has fetched a word and stands behind it. -/
def fetched (machine : Machine) (word : Word) : Machine :=
  { machine with lastWord := word, registers.pc := machine.registers.pc + 2 }

/-- Executes a word found at an address; a word that encodes no instruction is passed over. -/
def executeWord (machine : Machine) (held : UInt8 → Bool) (address : UInt16) (word : Word) :
    Outcome :=
  match word.decode with
  | some instruction =>
    let registers := machine.registers
    (machine.execute held instruction).after
      [.executing address word registers.v registers.i registers.sp]
  | none => ⟨machine, [.unknownWord address word], none⟩

/-- Fetches a word and executes it. -/
def cycle (machine : Machine) (held : UInt8 → Bool) : Outcome :=
  let word := machine.fetch
  match word.value with
  | .ok w => ((machine.fetched w).executeWord held machine.registers.pc w).after word.notices
  | .error fault => ⟨machine, word.notices, some fault⟩

variable {κ : Type} [KeyInput κ]

/-- Asks for a key press; if there is one, its code goes into the register that waits. -/
def pollKey (machine : Machine) (x : Register) (keys : κ) : Stepped κ :=
  match KeyInput.poll keys with
  | (some code, keys) =>
    ⟨⟨{ machine.setV x code with awaiting := none }, [.keyStored code x], none⟩, keys⟩
  | (none, keys) => ⟨.done machine, keys⟩

/-- Begins a wait if the last instruction asked for one. -/
def beginWait (outcome : Outcome) (keys : κ) : Stepped κ :=
  match outcome.fault, outcome.machine.awaiting with
  | none, some x =>
    ⟨{ outcome with notices := outcome.notices ++ [.awaitingKey x] }, (KeyInput.drain keys).2⟩
  | _, _ => ⟨outcome, keys⟩

/-- One step of a machine. -/
def step (machine : Machine) (keys : κ) : Stepped κ :=
  match machine.awaiting with
  | some x => machine.pollKey x keys
  | none => beginWait (machine.cycle (KeyInput.isHeld keys)) keys

end Machine

end Chip8
