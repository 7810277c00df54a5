import Chip8.Keys.Keypad
import Chip8.Proofs.Machine.Successor

/-!
Flags. Over the integers an operation with a flag is exact: the flag makes up for what the byte in
Vx cannot hold. If Vx is VF itself the byte stays and the flag is lost. The operands are always the
old registers.
-/

namespace Chip8

namespace Arithmetic

/-- Whether a byte and a flag make up for each other, as integers. `a` is the old Vx, `b` the old Vy
and `s` the one that a shift works on. -/
def Balances (operation : Arithmetic) (a b s result flag : Int) : Prop :=
  match operation with
  | .add => a + b = 256 * flag + result
  | .subtract => a - b = result - 256 * (1 - flag)
  | .shiftRight => s = 2 * result + flag
  | .subtractFrom => b - a = result - 256 * (1 - flag)
  | .shiftLeft => 2 * s = 256 * flag + result
  | .copy | .or | .and | .xor => False

/-- Whether an operation with a flag comes to a byte, as integers. -/
def ComesTo (operation : Arithmetic) (a b s result : Int) : Prop :=
  match operation with
  | .add => result = (a + b) % 256
  | .subtract => result = (a - b) % 256
  | .shiftRight => result = s / 2
  | .subtractFrom => result = (b - a) % 256
  | .shiftLeft => result = 2 * s % 256
  | .copy | .or | .and | .xor => False

theorem toNat_flagByte (c : Prop) [Decidable c] :
    (flagByte c).toNat = if c then 1 else 0 := by
  by_cases h : c <;> simp [flagByte, h]

/-- Every operation behind digit 3 gives a flag, and is exact with it. -/
theorem apply_balances {operation : Arithmetic} (h : 0x3 < operation.digit.val) (inPlace : Bool)
    (a b : UInt8) :
    ∃ result flag, operation.apply inPlace a b = (result, some flag) ∧
      (flag.toNat = 0 ∨ flag.toNat = 1) ∧
      operation.Balances a.toNat b.toNat (if inPlace then a else b).toNat result.toNat flag.toNat ∧
      operation.ComesTo a.toNat b.toNat (if inPlace then a else b).toNat result.toNat := by
  have hA := a.toNat_lt
  have hB := b.toNat_lt
  cases operation with
  | copy | or | and | xor => exact absurd h (by decide)
  | add =>
      refine ⟨_, _, rfl, ?_⟩
      simp only [Balances, ComesTo, toNat_flagByte, UInt8.toNat_add]
      split <;> omega
  | subtract =>
      refine ⟨_, _, rfl, ?_⟩
      simp only [Balances, ComesTo, toNat_flagByte, UInt8.toNat_sub, UInt8.le_iff_toNat_le]
      split <;> omega
  | subtractFrom =>
      refine ⟨_, _, rfl, ?_⟩
      simp only [Balances, ComesTo, toNat_flagByte, UInt8.toNat_sub, UInt8.le_iff_toNat_le]
      split <;> omega
  | shiftRight =>
      refine ⟨_, _, rfl, ?_⟩
      have hS := (if inPlace then a else b).toNat_lt
      simp only [Balances, ComesTo, UInt8.toNat_div, UInt8.toNat_mod, UInt8.reduceToNat]
      omega
  | shiftLeft =>
      refine ⟨_, _, rfl, ?_⟩
      have hS := (if inPlace then a else b).toNat_lt
      simp only [Balances, ComesTo, UInt8.toNat_div, UInt8.toNat_mul, UInt8.reduceToNat]
      omega

end Arithmetic

namespace Machine

/-- A flag goes into VF before the result goes into Vx. -/
theorem getV_applyArithmetic (machine : Machine) {operation : Arithmetic} {x y : Register}
    {result flag : UInt8}
    (h : operation.apply machine.config.shiftInPlace (machine.registers.getV x)
      (machine.registers.getV y) = (result, some flag)) (r : Register) :
    (machine.applyArithmetic operation x y).registers.getV r =
      if x = r then result else if flagRegister = r then flag else machine.registers.getV r := by
  simp only [applyArithmetic, h, setV, Registers.getV_setV]

/-- Whatever the registers, an operation with a flag leaves an exact result in Vx and its flag in
VF, and the result alone if Vx is VF. No other register changes, and nothing else but the program
counter and the word fetched last. -/
theorem arithmetic_exact (machine : Machine) {word : Word} (h : machine.upcoming? = some word)
    {operation : Arithmetic} {x y : Register} (hWord : word.Encodes (.arithmetic operation x y))
    (hFlag : 0x3 < operation.digit.val) {κ : Type} [KeyInput κ] (keys : κ) :
    let stepped := machine.step keys
    let final := stepped.outcome.machine
    let a := machine.registers.getV x
    let b := machine.registers.getV y
    let s := if machine.config.shiftInPlace then a else b
    let result := final.registers.getV x
    let flag := final.registers.getV flagRegister
    stepped.outcome.fault = none ∧
    (x ≠ flagRegister → (flag.toNat = 0 ∨ flag.toNat = 1) ∧
      operation.Balances a.toNat b.toNat s.toNat result.toNat flag.toNat) ∧
    (x = flagRegister → operation.ComesTo a.toNat b.toNat s.toNat flag.toNat) ∧
    (∀ r, r ≠ x → r ≠ flagRegister → final.registers.getV r = machine.registers.getV r) ∧
    final = { machine.fetched word with registers.v := final.registers.v } := by
  intro stepped final a b s result flag
  have hFinal : final = (machine.fetched word).applyArithmetic operation x y :=
    machine_step_of_encodes h hWord keys
  obtain ⟨exact, bit, hApply, hBit, hBalances, hComesTo⟩ :=
    Arithmetic.apply_balances hFlag machine.config.shiftInPlace a b
  have hV (r : Register) : final.registers.getV r =
      if x = r then exact else if flagRegister = r then bit else machine.registers.getV r := by
    rw [hFinal]
    exact (machine.fetched word).getV_applyArithmetic hApply r
  have hResult : result = exact := (hV x).trans (if_pos rfl)
  refine ⟨fault_step_of_encodes h hWord keys, ?_, ?_, ?_, ?_⟩
  · intro hx
    have hBitFlag : flag = bit := by
      rw [show flag = _ from hV flagRegister, if_neg hx, if_pos rfl]
    rw [hBitFlag, hResult]
    exact ⟨hBit, hBalances⟩
  · intro hx
    have hByteFlag : flag = exact := (hV flagRegister).trans (if_pos hx)
    rw [hByteFlag]
    exact hComesTo
  · intro r hx hr
    rw [hV, if_neg hx.symm, if_neg hr.symm]
  · rw [hFinal]
    simp only [applyArithmetic]
    split <;> rfl

/-- VF is subtracted from V1: the flag replaces the operand only after it was read. -/
theorem arithmetic_exact_of_flag_subtracted :
    let machine : Machine :=
      { Machine.initial {} (.ofSeed 0) with
          memory := Memory.install ⟨Vector.replicate 4096 0⟩ 0x200 [0x81, 0xF5]
          registers := { Registers.initial with
            v := ((Vector.replicate 16 0).set 1 3).set 15 5 } }
    let final := (machine.step Keypad.initial).outcome.machine
    machine.upcoming? = some 0x81F5 ∧
    Word.Encodes 0x81F5 (.arithmetic .subtract 1 flagRegister) ∧
    0x3 < Arithmetic.subtract.digit.val ∧
    ((final.registers.getV flagRegister).toNat = 0 ∨
      (final.registers.getV flagRegister).toNat = 1) ∧
    (3 : Int) - 5 = (final.registers.getV 1).toNat -
      256 * (1 - ((final.registers.getV flagRegister).toNat : Int)) := by
  intro machine final
  have hUpcoming : machine.upcoming? = some 0x81F5 := by
    decide +kernel +revert
  have hWord : Word.Encodes 0x81F5 (.arithmetic .subtract 1 flagRegister) :=
    ⟨by decide, by decide, by decide, by decide⟩
  have hFlag : 0x3 < Arithmetic.subtract.digit.val := by decide
  obtain ⟨-, hExact, -⟩ := arithmetic_exact machine hUpcoming hWord hFlag Keypad.initial
  obtain ⟨hBit, hBalances⟩ := hExact (by decide)
  exact ⟨hUpcoming, hWord, hFlag, hBit, hBalances⟩

end Machine

end Chip8
