import Chip8.Proofs.Machine.Step

/-!
Changes aside. Most of what a machine does concerns its core alone: memory, the call stack, all
registers but the timers, and the wait. A change of anything else goes unnoticed there. What is
done after it is done in the same way without it, and leaves the change as it is.
-/

namespace Chip8

/-- The same outcome, ending in a machine that is changed. -/
def Outcome.mapMachine (change : Machine → Machine) (outcome : Outcome) : Outcome :=
  { outcome with machine := change outcome.machine }

/-- The same end of a step, in a machine that is changed. -/
def Stepped.mapMachine {κ : Type} (change : Machine → Machine) (stepped : Stepped κ) : Stepped κ :=
  { stepped with outcome := stepped.outcome.mapMachine change }

theorem Outcome.andThen_mapMachine {change : Machine → Machine} {outcome : Outcome}
    {next : Machine → Outcome}
    (h : next (change outcome.machine) = (next outcome.machine).mapMachine change) :
    (outcome.mapMachine change).andThen next = (outcome.andThen next).mapMachine change := by
  obtain ⟨machine, notices, fault⟩ := outcome
  cases fault with
  | some fault => rfl
  | none =>
      change (next (change machine)).after notices =
        ((next machine).mapMachine change).after notices
      rw [h]

namespace Machine

/-- What most of the things that a machine does are about. -/
structure Core where
  memory : Memory
  stack : CallStack
  v : Vector UInt8 16
  i : UInt16
  pc : UInt16
  sp : Int8
  awaiting : Option Register
  lastWord : Word

def core (machine : Machine) : Core where
  memory := machine.memory
  stack := machine.stack
  v := machine.registers.v
  i := machine.registers.i
  pc := machine.registers.pc
  sp := machine.registers.sp
  awaiting := machine.awaiting
  lastWord := machine.lastWord

/-- The same machine with another core. -/
def withCore (machine : Machine) (core : Core) : Machine :=
  { machine with
    memory := core.memory
    stack := core.stack
    registers := { machine.registers with v := core.v, i := core.i, pc := core.pc, sp := core.sp }
    awaiting := core.awaiting
    lastWord := core.lastWord }

/-- A change that lies aside of the core and of strictness: it neither changes them nor depends on
the core. -/
structure Aside (change : Machine → Machine) : Prop where
  strict : ∀ machine, (change machine).config.strict = machine.config.strict
  core : ∀ machine, (change machine).core = machine.core
  withCore : ∀ machine core, change (machine.withCore core) = (change machine).withCore core

namespace Aside

variable {change : Machine → Machine} (h : Aside change) (machine : Machine)
include h

theorem memory : (change machine).memory = machine.memory :=
  congrArg Core.memory (h.core machine)

theorem stack : (change machine).stack = machine.stack :=
  congrArg Core.stack (h.core machine)

theorem v : (change machine).registers.v = machine.registers.v :=
  congrArg Core.v (h.core machine)

theorem getV : (change machine).registers.getV = machine.registers.getV := by
  funext x
  rw [Registers.getV, Registers.getV, h.v]

theorem i : (change machine).registers.i = machine.registers.i :=
  congrArg Core.i (h.core machine)

theorem pc : (change machine).registers.pc = machine.registers.pc :=
  congrArg Core.pc (h.core machine)

theorem sp : (change machine).registers.sp = machine.registers.sp :=
  congrArg Core.sp (h.core machine)

theorem awaiting : (change machine).awaiting = machine.awaiting :=
  congrArg Core.awaiting (h.core machine)

/-- Whatever is done to the core can be done before the change or after it. -/
theorem alter (update : Core → Core) :
    change (machine.withCore (update machine.core)) =
      (change machine).withCore (update (change machine).core) := by
  rw [h.withCore, h.core]

theorem setV (x : Register) (value : UInt8) :
    change (machine.setV x value) = (change machine).setV x value :=
  h.alter machine fun core => { core with v := core.v.set x value }

theorem jumpTo (address : UInt16) :
    change (machine.jumpTo address) = (change machine).jumpTo address :=
  h.alter machine fun core => { core with pc := address }

theorem setIndex (address : UInt16) :
    change (machine.setIndex address) = (change machine).setIndex address :=
  h.alter machine fun core => { core with i := address }

theorem fetched (word : Word) : change (machine.fetched word) = (change machine).fetched word :=
  h.alter machine fun core => { core with lastWord := word, pc := core.pc + 2 }

theorem readByte : (change machine).readByte = machine.readByte := by
  funext address
  rw [Machine.readByte, Machine.readByte, h.strict, h.memory]

theorem fetch : (change machine).fetch = machine.fetch := by
  rw [Machine.fetch, Machine.fetch, h.readByte, h.pc]

theorem upcoming? : (change machine).upcoming? = machine.upcoming? := by
  rw [Machine.upcoming?, Machine.upcoming?, h.awaiting, h.fetch]

theorem writeByte (address : UInt16) (value : UInt8) :
    (change machine).writeByte address value =
      (machine.writeByte address value).mapMachine change := by
  have hWritten (memory : Memory) : { change machine with memory := memory } =
      change { machine with memory := memory } :=
    (h.alter machine fun core => { core with memory := memory }).symm
  have hSame : (change machine).memory.trySet address value =
      machine.memory.trySet address value := by
    rw [h.memory]
  cases hSet : machine.memory.trySet address value with
  | ok memory =>
      rw [writeByte_of_trySet_eq_ok hSet, writeByte_of_trySet_eq_ok (hSame.trans hSet)]
      exact congrArg Outcome.done (hWritten memory)
  | error fault =>
      rw [writeByte_of_trySet_eq_error hSet, writeByte_of_trySet_eq_error (hSame.trans hSet),
        h.strict]
      cases machine.config.strict <;> rfl

theorem writeBlock (address : UInt16) (bytes : List UInt8) :
    (change machine).writeBlock address bytes =
      (machine.writeBlock address bytes).mapMachine change := by
  induction bytes generalizing machine address with
  | nil => rfl
  | cons byte rest ih =>
      rw [Machine.writeBlock, Machine.writeBlock, h.writeByte]
      exact Outcome.andThen_mapMachine (ih _ _)

theorem loadV (x : Register) (address : UInt16) :
    (change machine).loadV x address = (machine.loadV x address).mapMachine change := by
  rw [Machine.loadV, Machine.loadV, h.readByte]
  cases (machine.readByte address).value with
  | ok value => exact congrArg (Outcome.mk · _ none) (h.setV machine x value).symm
  | error fault => rfl

theorem readBlock (address : UInt16) (registers : List Register) :
    (change machine).readBlock address registers =
      (machine.readBlock address registers).mapMachine change := by
  induction registers generalizing machine address with
  | nil => rfl
  | cons x rest ih =>
      rw [Machine.readBlock, Machine.readBlock, h.loadV]
      exact Outcome.andThen_mapMachine (ih _ _)

theorem call (address : UInt16) :
    (change machine).call address = (machine.call address).mapMachine change := by
  have hSame : (change machine).stack.push (change machine).registers.sp
      (change machine).registers.pc =
        machine.stack.push machine.registers.sp machine.registers.pc := by
    rw [h.stack, h.sp, h.pc]
  cases hPush : machine.stack.push machine.registers.sp machine.registers.pc with
  | ok pushed =>
      rw [call_of_push_eq_ok hPush, call_of_push_eq_ok (hSame.trans hPush)]
      exact congrArg Outcome.done (h.alter machine fun core =>
        { core with stack := pushed.1, sp := pushed.2, pc := address }).symm
  | error fault =>
      rw [call_of_push_eq_error hPush, call_of_push_eq_error (hSame.trans hPush), h.strict, h.pc]
      cases machine.config.strict with
      | true => rfl
      | false => exact congrArg (Outcome.mk · _ none) (h.jumpTo machine address).symm

theorem ret : (change machine).ret = machine.ret.mapMachine change := by
  have hSame : (change machine).stack.pop (change machine).registers.sp =
      machine.stack.pop machine.registers.sp := by
    rw [h.stack, h.sp]
  cases hPop : machine.stack.pop machine.registers.sp with
  | ok popped =>
      rw [ret_of_pop_eq_ok hPop, ret_of_pop_eq_ok (hSame.trans hPop)]
      exact congrArg Outcome.done (h.alter machine fun core =>
        { core with sp := popped.2, pc := popped.1 }).symm
  | error fault =>
      rw [ret_of_pop_eq_error hPop, ret_of_pop_eq_error (hSame.trans hPop), h.strict]
      cases machine.config.strict <;> rfl

theorem skipWhen (condition : Bool) :
    (change machine).skipWhen condition = change (machine.skipWhen condition) := by
  cases condition with
  | false => rfl
  | true =>
      rw [Machine.skipWhen, Machine.skipWhen, if_pos rfl, if_pos rfl, h.pc, h.jumpTo]

theorem applyArithmetic {operation : Arithmetic} {x y : Register}
    (hApply : operation.apply (change machine).config.shiftInPlace (machine.registers.getV x)
        (machine.registers.getV y) =
      operation.apply machine.config.shiftInPlace (machine.registers.getV x)
        (machine.registers.getV y)) :
    (change machine).applyArithmetic operation x y =
      change (machine.applyArithmetic operation x y) := by
  rw [Machine.applyArithmetic, Machine.applyArithmetic, h.getV, hApply]
  split
  · rw [h.setV]
  · rw [h.setV, h.setV]

theorem passBlock (hKeep : (change machine).config.keepIndex = machine.config.keepIndex)
    (x : Register) : (change machine).passBlock x = change (machine.passBlock x) := by
  rw [Machine.passBlock, Machine.passBlock, hKeep, h.i]
  split
  · rfl
  · rw [h.setIndex]

theorem holds (condition : Condition) (held : UInt8 → Bool) :
    condition.holds (change machine).registers held = condition.holds machine.registers held := by
  cases condition <;> simp only [Condition.holds, h.getV]

end Aside

variable {κ : Type} [KeyInput κ] {before after : Machine → Machine} {machine : Machine}

theorem Aside.pollKey (h : Aside after) (machine : Machine) (x : Register) (keys : κ) :
    (after machine).pollKey x keys = (machine.pollKey x keys).mapMachine after := by
  rw [Machine.pollKey, Machine.pollKey]
  rcases KeyInput.poll keys with ⟨code | code, rest⟩
  · rfl
  · have hStored : { (after machine).setV x code with awaiting := none } =
        after { machine.setV x code with awaiting := none } :=
      (h.alter machine fun core => { core with v := core.v.set x code, awaiting := none }).symm
    exact congrArg (fun final => Stepped.mk ⟨final, [.keyStored code x], none⟩ rest) hStored

/-- Whether a wait begins depends on nothing but whether one is asked for. -/
theorem beginWait_mapMachine (change : Machine → Machine) (outcome : Outcome)
    (h : (change outcome.machine).awaiting = outcome.machine.awaiting) (keys : κ) :
    beginWait (outcome.mapMachine change) keys = (beginWait outcome keys).mapMachine change := by
  obtain ⟨machine, notices, fault⟩ := outcome
  simp only [beginWait, Outcome.mapMachine, h]
  cases fault <;> cases machine.awaiting <;> rfl

/-- A step after one change ends as the step without it, with another change, if its instruction
is executed so. -/
theorem Aside.step (hBefore : Aside before) (hAfter : Aside after)
    (hNone : machine.upcoming?.bind Word.decode = none → after = before)
    (hExecute : ∀ word instruction, machine.upcoming? = some word →
      word.decode = some instruction → ∀ held,
        (before (machine.fetched word)).execute held instruction =
          ((machine.fetched word).execute held instruction).mapMachine after) (keys : κ) :
    (before machine).step keys = (machine.step keys).mapMachine after := by
  cases hUpcoming : machine.upcoming? with
  | some word =>
      have hUpcoming' : (before machine).upcoming? = some word :=
        (hBefore.upcoming? machine).trans hUpcoming
      rw [step_of_upcoming? hUpcoming', step_of_upcoming? hUpcoming, hBefore.fetch, hBefore.pc,
        ← hBefore.fetched, ← beginWait_mapMachine after _ (hAfter.awaiting _), executeWord,
        executeWord]
      cases hDecode : word.decode with
      | none =>
          obtain rfl := hNone (by rw [hUpcoming]; exact hDecode)
          rfl
      | some instruction =>
          dsimp only
          rw [hExecute word instruction hUpcoming hDecode, hBefore.v, hBefore.i, hBefore.sp]
          rfl
  | none =>
      obtain rfl := hNone (by rw [hUpcoming]; rfl)
      rcases cases_of_upcoming?_eq_none hUpcoming with ⟨x, hAwaiting⟩ | ⟨hAwaiting, fault, hFetch⟩
      · have hAwaiting' : (after machine).awaiting = some x :=
          (hAfter.awaiting machine).trans hAwaiting
        rw [step_of_awaiting hAwaiting', step_of_awaiting hAwaiting, hAfter.pollKey]
      · have hAwaiting' : (after machine).awaiting = none :=
          (hAfter.awaiting machine).trans hAwaiting
        have hFetch' : (after machine).fetch.value = .error fault := by rw [hAfter.fetch, hFetch]
        rw [step_of_fetch_eq_error hAwaiting' hFetch', step_of_fetch_eq_error hAwaiting hFetch,
          hAfter.fetch]
        rfl

end Machine

end Chip8
