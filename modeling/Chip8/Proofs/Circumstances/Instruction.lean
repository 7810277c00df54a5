import Chip8.Proofs.Machine.Aside
import Chip8.Proofs.Machine.Blocks
import Chip8.Proofs.Screen.Edges

/-!
Instructions under other circumstances. The settings and the timers of a machine are looked at by
few instructions only. Every other one does the same whatever they are, and hands them on; the two
that set a timer set it to the same value.
-/

namespace Chip8

/-- What goes on around a program: all settings but strictness, how the screen treats its edges,
and the timers. -/
structure Circumstances where
  config : Config
  wrap : Bool
  delay : UInt8
  sound : UInt8

/-- The same machine under other circumstances. Its strictness stays. -/
def Machine.under (machine : Machine) (c : Circumstances) : Machine :=
  { machine with
    config := { c.config with strict := machine.config.strict }
    registers := { machine.registers with delay := c.delay, sound := c.sound }
    screen := machine.screen.withWrap c.wrap }

/-- The same outcome, ending in a machine under other circumstances. -/
def Outcome.under (outcome : Outcome) (c : Circumstances) : Outcome :=
  { outcome with machine := outcome.machine.under c }

/-- Circumstances after an instruction that is executed under them. -/
def Circumstances.after (c : Circumstances) (machine : Machine) : Instruction → Circumstances
  | .setDelay x => { c with delay := machine.registers.getV x }
  | .setSound x => { c with sound := machine.registers.getV x }
  | _ => c

/-- Whether an operation shifts, and so asks where its operand is. -/
def Arithmetic.isShift : Arithmetic → Bool
  | .shiftRight | .shiftLeft => true
  | _ => false

/-- Whether an instruction does not tell the circumstances of a machine from others. -/
def Machine.Overlooks (machine : Machine) (c : Circumstances) : Instruction → Prop
  | .arithmetic operation x y =>
    operation.isShift = true → c.config.shiftInPlace = machine.config.shiftInPlace ∨
      machine.registers.getV x = machine.registers.getV y
  | .draw x y rows =>
    c.wrap = machine.screen.wrap ∨
      SpriteOnGrid machine.memory (machine.registers.getV x).toNat (machine.registers.getV y).toNat
        machine.registers.i rows.val
  | .readDelay _ => c.delay = machine.registers.delay
  | .store _ | .load _ => c.config.keepIndex = machine.config.keepIndex
  | _ => True

theorem Arithmetic.apply_inPlace {operation : Arithmetic} {inPlace other : Bool} {a b : UInt8}
    (h : operation.isShift = true → inPlace = other ∨ a = b) :
    operation.apply inPlace a b = operation.apply other a b := by
  cases operation with
  | shiftRight | shiftLeft =>
      rcases h rfl with rfl | rfl
      · rfl
      · simp only [apply, ite_self]
  | _ => rfl

namespace Machine

variable (machine : Machine) (c : Circumstances)

@[simp] theorem memory_under : (machine.under c).memory = machine.memory := rfl

@[simp] theorem i_under : (machine.under c).registers.i = machine.registers.i := rfl

@[simp] theorem getV_under :
    (machine.under c).registers.getV = machine.registers.getV := rfl

/-- Other circumstances lie aside of all but the instructions that look at them. -/
theorem aside_under : Aside fun machine => machine.under c where
  strict _ := rfl
  core _ := rfl
  withCore _ _ := rfl

variable {machine c}

theorem draw_under {x y : Register} {rows : Fin 16} (h : machine.Overlooks c (.draw x y rows)) :
    (machine.under c).draw x y rows = (machine.draw x y rows).under c := by
  have hFault : (machine.under c).drawFault? rows = machine.drawFault? rows := rfl
  have hScreen : (machine.under c).screen = machine.screen.withWrap c.wrap := rfl
  rw [draw, draw, hFault, hScreen, memory_under, getV_under, i_under,
    Screen.draw_withWrap h]
  cases machine.drawFault? rows <;> rfl

/-- An instruction that does not tell circumstances apart does the same under each of them. -/
theorem execute_under {held : UInt8 → Bool} {instruction : Instruction}
    (h : machine.Overlooks c instruction) :
    (machine.under c).execute held instruction =
      (machine.execute held instruction).under (c.after machine instruction) := by
  cases instruction with
  | ret => exact (aside_under c).ret machine
  | call target => exact (aside_under c).call machine _
  | skipIf condition =>
      rw [execute, execute, (aside_under c).holds, (aside_under c).skipWhen]
      rfl
  | arithmetic operation x y =>
      exact congrArg Outcome.done
        ((aside_under c).applyArithmetic machine (Arithmetic.apply_inPlace h))
  | draw x y rows => exact draw_under h
  | readDelay x =>
      have hDelay : (machine.under c).registers.delay = machine.registers.delay := h
      rw [execute, execute, hDelay]
      rfl
  | decimal x => exact (aside_under c).writeBlock machine _ _
  | store x =>
      rw [execute, execute, i_under, getV_under, (aside_under c).writeBlock]
      apply Outcome.andThen_mapMachine
      exact congrArg Outcome.done
        ((aside_under c).passBlock _ (by rw [config_writeBlock]; exact h) x)
  | load x =>
      rw [execute, execute, i_under, (aside_under c).readBlock]
      apply Outcome.andThen_mapMachine
      exact congrArg Outcome.done
        ((aside_under c).passBlock _ (by rw [config_readBlock]; exact h) x)
  | _ => rfl

end Machine

end Chip8
