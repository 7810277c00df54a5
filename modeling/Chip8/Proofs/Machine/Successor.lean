import Chip8.Keys.Keypad
import Chip8.Proofs.Machine.Footprint
import Chip8.Proofs.Machine.Step

/-!
Where a machine goes on. After a word it goes on behind it, unless the word is a jump, a call, a
return or a skip that takes place. Together with the footprint this says all that a step changes.
-/

namespace Chip8

open CallStack (IsSlot)

/-- Whether a word passes over the next one, on registers and keys as they are before. -/
def Word.Skips (word : Word) (registers : Registers) (held : UInt8 → Bool) : Prop :=
  word.family = 0x3 ∧ registers.getV word.x = word.low ∨
    word.family = 0x4 ∧ registers.getV word.x ≠ word.low ∨
    word.family = 0x5 ∧ word.last = 0 ∧ registers.getV word.x = registers.getV word.y ∨
    word.family = 0x9 ∧ word.last = 0 ∧ registers.getV word.x ≠ registers.getV word.y ∨
    word.family = 0xE ∧ word.low = 0x9E ∧ held (registers.getV word.x) = true ∨
    word.family = 0xE ∧ word.low = 0xA1 ∧ held (registers.getV word.x) = false

instance (word : Word) (registers : Registers) (held : UInt8 → Bool) :
    Decidable (word.Skips registers held) :=
  inferInstanceAs (Decidable (_ ∨ _))

theorem Word.skips_iff {word : Word} {registers : Registers} {held : UInt8 → Bool} :
    word.Skips registers held ↔
      ∃ condition, word.EncodesSkip condition ∧ condition.holds registers held = true := by
  constructor
  · rintro (⟨hFamily, hHolds⟩ | ⟨hFamily, hHolds⟩ | ⟨hFamily, hLast, hHolds⟩ |
      ⟨hFamily, hLast, hHolds⟩ | ⟨hFamily, hLow, hHolds⟩ | ⟨hFamily, hLow, hHolds⟩)
    · exact ⟨.byteEqual word.x word.low, ⟨hFamily, rfl, rfl⟩, by simp [Condition.holds, hHolds]⟩
    · exact ⟨.byteDiffers word.x word.low, ⟨hFamily, rfl, rfl⟩, by simp [Condition.holds, hHolds]⟩
    · exact ⟨.equal word.x word.y, ⟨hFamily, hLast, rfl, rfl⟩, by simp [Condition.holds, hHolds]⟩
    · exact ⟨.differs word.x word.y, ⟨hFamily, hLast, rfl, rfl⟩, by simp [Condition.holds, hHolds]⟩
    · exact ⟨.keyDown word.x, ⟨hFamily, hLow, rfl⟩, hHolds⟩
    · exact ⟨.keyUp word.x, ⟨hFamily, hLow, rfl⟩, by simp [Condition.holds, hHolds]⟩
  · rintro ⟨condition, hEncodes, hHolds⟩
    cases condition <;> simp_all [Condition.holds, Word.EncodesSkip, Word.Skips]

namespace Machine

variable {machine : Machine} {word : Word} {held : UInt8 → Bool}

/-- Where a machine that stands behind an instruction goes on after executing it. -/
def successor (machine : Machine) (held : UInt8 → Bool) : Instruction → UInt16
  | .jump target | .call target => UInt16.ofNat target.val
  | .jumpOffset target => (machine.registers.getV 0).toUInt16 + UInt16.ofNat target.val
  | .ret =>
    if h : IsSlot machine.registers.sp then
      machine.stack.slots.get ⟨machine.registers.sp.toInt.toNat, h.toNat_lt⟩
    else machine.registers.pc
  | .skipIf condition =>
    if condition.holds machine.registers held then machine.registers.pc + 2
    else machine.registers.pc
  | _ => machine.registers.pc

theorem pc_ret : machine.ret.machine.registers.pc = machine.successor held .ret := by
  change _ = if h : IsSlot machine.registers.sp then
    machine.stack.slots.get ⟨machine.registers.sp.toInt.toNat, h.toNat_lt⟩
    else machine.registers.pc
  by_cases hSlot : IsSlot machine.registers.sp
  · rw [dif_pos hSlot, ret_of_pop_eq_ok (CallStack.pop_of_isSlot hSlot machine.stack)]
    rfl
  · rw [dif_neg hSlot, ret_of_pop_eq_error (CallStack.pop_of_not_isSlot hSlot machine.stack)]
    cases machine.config.strict <;> rfl

theorem pc_call {address : UInt16} (h : (machine.call address).fault = none) :
    (machine.call address).machine.registers.pc = address := by
  cases hPush : machine.stack.push machine.registers.sp machine.registers.pc with
  | ok pushed =>
      rw [call_of_push_eq_ok hPush]
      rfl
  | error fault =>
      rw [call_of_push_eq_error hPush] at h ⊢
      cases hStrict : machine.config.strict with
      | false => rfl
      | true => simp [hStrict, Outcome.fail] at h

theorem pc_execute {instruction : Instruction}
    (h : (machine.execute held instruction).fault = none) :
    (machine.execute held instruction).machine.registers.pc =
      machine.successor held instruction := by
  cases instruction with
  | ret => exact pc_ret
  | call target => exact pc_call h
  | skipIf condition =>
      change (machine.skipWhen (condition.holds machine.registers held)).registers.pc =
        if condition.holds machine.registers held then machine.registers.pc + 2
        else machine.registers.pc
      unfold skipWhen
      split <;> rfl
  | arithmetic operation x y =>
      change (machine.applyArithmetic operation x y).registers.pc = machine.registers.pc
      unfold applyArithmetic
      split <;> rfl
  | draw x y rows =>
      change (machine.draw x y rows).machine.registers.pc = machine.registers.pc
      unfold draw
      split <;> rfl
  | decimal x =>
      obtain ⟨memory, hFinal⟩ := machine.machine_writeBlock machine.registers.i
        (decimalDigits (machine.registers.getV x))
      rw [execute, hFinal]
      rfl
  | store x =>
      apply Outcome.andThen_keeps (motive := fun final =>
        final.registers.pc = machine.registers.pc)
      · obtain ⟨memory, hFinal⟩ := machine.machine_writeBlock machine.registers.i
          ((upTo x).map machine.registers.getV)
        rw [hFinal]
      · intro stored hStored
        rw [passBlock_eq]
        exact hStored
  | load x =>
      apply Outcome.andThen_keeps (motive := fun final =>
        final.registers.pc = machine.registers.pc)
      · obtain ⟨v, hFinal⟩ := machine.machine_readBlock machine.registers.i (upTo x)
        rw [hFinal]
      · intro loaded hLoaded
        rw [passBlock_eq]
        exact hLoaded
  | _ => rfl

/-- Where a machine goes on after executing a word without a fault: at the address that the word
names or that lies on top of the call stack, behind the next word if the word skips that one, and
else at the next word. -/
structure GoesOn (machine : Machine) (held : UInt8 → Bool) (word : Word) (pc : UInt16) : Prop where
  jump : word.family = 0x1 ∨ word.family = 0x2 → pc.toNat = word.target.val
  jumpOffset : word.family = 0xB →
    pc.toNat = (machine.registers.getV 0).toNat + word.target.val
  ret : word = 0x00EE → ∀ h : IsSlot machine.registers.sp,
    pc = machine.stack.slots.get ⟨machine.registers.sp.toInt.toNat, h.toNat_lt⟩
  skip : word.Skips machine.registers held → pc = machine.registers.pc + 4
  next : word.family ≠ 0x1 → word.family ≠ 0x2 → word.family ≠ 0xB →
    (word = 0x00EE → ¬ IsSlot machine.registers.sp) → ¬ word.Skips machine.registers held →
    pc = machine.registers.pc + 2

theorem goesOn_of_decode {pc : UInt16}
    (h : pc = word.decode.elim (machine.registers.pc + 2) ((machine.fetched word).successor held)) :
    machine.GoesOn held word pc := by
  have hSuccessor (instruction : Instruction) (hEncodes : word.Encodes instruction) :
      pc = (machine.fetched word).successor held instruction := by
    rw [h, Word.decode_of_encodes hEncodes]
    rfl
  have hTarget : (UInt16.ofNat word.target.val).toNat = word.target.val :=
    UInt16.toNat_ofNat_of_lt (Nat.lt_trans word.target.isLt (by decide))
  constructor
  case jump =>
    rintro (hFamily | hFamily)
    · rw [hSuccessor (.jump word.target) ⟨hFamily, rfl⟩]
      exact hTarget
    · rw [hSuccessor (.call word.target) ⟨hFamily, rfl⟩]
      exact hTarget
  case jumpOffset =>
    intro hFamily
    rw [hSuccessor (.jumpOffset word.target) ⟨hFamily, rfl⟩]
    change ((machine.registers.getV 0).toUInt16 + UInt16.ofNat word.target.val).toNat = _
    have hOffset := (machine.registers.getV 0).toNat_lt
    rw [UInt16.toNat_add, UInt8.toNat_toUInt16, hTarget]
    omega
  case ret =>
    rintro rfl hSlot
    rw [hSuccessor .ret rfl]
    exact dif_pos hSlot
  case skip =>
    intro hSkips
    obtain ⟨condition, hEncodes, hHolds⟩ := Word.skips_iff.mp hSkips
    rw [hSuccessor (.skipIf condition) hEncodes]
    refine (if_pos hHolds).trans ?_
    change machine.registers.pc + 2 + 2 = _
    rw [UInt16.add_assoc]
    rfl
  case next =>
    intro hJump hCall hOffset hRet hSkips
    cases hDecode : word.decode with
    | none =>
        rw [h, hDecode]
        rfl
    | some instruction =>
        have hEncodes := Word.encodes_of_decode hDecode
        rw [hSuccessor instruction hEncodes]
        cases instruction with
        | jump target => exact absurd hEncodes.1 hJump
        | call target => exact absurd hEncodes.1 hCall
        | jumpOffset target => exact absurd hEncodes.1 hOffset
        | ret => exact dif_neg (hRet hEncodes)
        | skipIf condition =>
            exact if_neg fun hHolds =>
              hSkips (Word.skips_iff.mpr ⟨condition, hEncodes, hHolds⟩)
        | _ => rfl

variable {κ : Type} [KeyInput κ]

/-- A machine that has fetched a word differs in what the footprint of the word leaves open. -/
theorem footprint_fetched (machine : Machine) (word : Word) :
    machine.Footprint word (machine.fetched word) :=
  { Footprint.refl machine word with lastWord := fun _ => rfl }

theorem footprint_step (h : machine.upcoming? = some word) (keys : κ) :
    machine.Footprint word (machine.step keys).outcome.machine ∧
      (machine.step keys).outcome.machine.lastWord = word := by
  rw [machine_step_of_upcoming? h]
  cases hDecode : word.decode with
  | none => exact ⟨machine.footprint_fetched word, rfl⟩
  | some instruction =>
      have hExecute := (machine.fetched word).footprint_execute (KeyInput.isHeld keys)
        (Word.encodes_of_decode hDecode)
      have hLast := Decidable.byContradiction fun hOther => hOther (hExecute.lastWord hOther)
      exact ⟨{ hExecute with lastWord := fun _ => hLast }, hLast⟩

theorem goesOn_step (h : machine.upcoming? = some word) {keys : κ}
    (hFault : (machine.step keys).outcome.fault = none) :
    machine.GoesOn (KeyInput.isHeld keys) word
      (machine.step keys).outcome.machine.registers.pc := by
  apply goesOn_of_decode
  rw [machine_step_of_upcoming? h]
  rw [step_of_upcoming? h, fault_beginWait] at hFault
  cases hDecode : word.decode with
  | none => rfl
  | some instruction =>
      apply pc_execute
      rw [executeWord, hDecode] at hFault
      exact hFault

/-- A machine that waits for no key executes the word that it fetches. The step changes no more
than the footprint of the word says, whether it ends in a fault or not; and if it does not, the
machine goes on where the word says. Where no word can be fetched nothing changes at all. -/
theorem step_changes_footprint (machine : Machine) (hAwaiting : machine.awaiting = none)
    (keys : κ) :
    let stepped := machine.step keys
    (∀ word, machine.fetch.value = .ok word →
      machine.Footprint word stepped.outcome.machine ∧
      stepped.outcome.machine.lastWord = word ∧
      (stepped.outcome.fault = none →
        machine.GoesOn (KeyInput.isHeld keys) word stepped.outcome.machine.registers.pc)) ∧
    ∀ fault, machine.fetch.value = .error fault →
      stepped.outcome.machine = machine ∧ stepped.outcome.fault = some fault := by
  intro stepped
  refine ⟨?_, ?_⟩
  · intro word hFetch
    have hWord := upcoming?_eq_some_iff.mpr ⟨hAwaiting, hFetch⟩
    obtain ⟨hFootprint, hLast⟩ := footprint_step hWord keys
    exact ⟨hFootprint, hLast, goesOn_step hWord⟩
  · intro fault hFetch
    have hStep : stepped = _ := step_of_fetch_eq_error hAwaiting hFetch keys
    rw [hStep]
    exact ⟨rfl, rfl⟩

/-- Three registers are stored across the end of memory: the last one is lost, no register but I
changes, and the machine goes on at the next word. -/
theorem step_changes_footprint_at_end_of_memory :
    let machine : Machine :=
      { Machine.initial {} (.ofSeed 0) with
          memory := Memory.install ⟨Vector.replicate 4096 0⟩ 0x200 [0xF2, 0x55]
          registers := { Registers.initial with i := 0xFFE, v := Vector.replicate 16 7 } }
    let stepped := machine.step Keypad.initial
    machine.awaiting = none ∧
    machine.fetch.value = .ok 0xF255 ∧
    stepped.outcome.fault = none ∧
    (∀ cell : Fin 4096,
      stepped.outcome.machine.memory.cells.get cell ≠ machine.memory.cells.get cell →
        cell.val = 0xFFE ∨ cell.val = 0xFFF) ∧
    (∀ r, stepped.outcome.machine.registers.getV r = machine.registers.getV r) ∧
    stepped.outcome.machine.registers.pc = 0x202 := by
  intro machine stepped
  have hEvaluated : machine.upcoming? = some 0xF255 ∧ stepped.outcome.fault = none := by
    decide +kernel +revert
  obtain ⟨hUpcoming, hFault⟩ := hEvaluated
  obtain ⟨-, hFetch⟩ := upcoming?_eq_some_iff.mp hUpcoming
  obtain ⟨hWord, -⟩ := step_changes_footprint machine rfl Keypad.initial
  obtain ⟨hFootprint, -, hGoesOn⟩ := hWord 0xF255 hFetch
  refine ⟨rfl, hFetch, hFault, ?_, ?_, ?_⟩
  · intro cell hChanged
    obtain ⟨-, offset, hCell, ⟨hLow, -⟩ | ⟨-, hOffset⟩⟩ := hFootprint.memory cell hChanged
    · exact absurd hLow (by decide)
    · have hSmall : offset = 0 ∨ offset = 1 ∨ offset = 2 := by
        change offset ≤ 2 at hOffset
        omega
      rcases hSmall with rfl | rfl | rfl
      · exact .inl hCell
      · exact .inr hCell
      · exact absurd hCell (Nat.ne_of_lt cell.isLt)
  · intro r
    have hKept : ¬ Word.MayChange 0xF255 r := by
      revert r
      decide
    exact Decidable.byContradiction fun hChanged => hKept (hFootprint.v r hChanged)
  · refine (hGoesOn hFault).next ?_ ?_ ?_ ?_ ?_ <;> decide

end Machine

end Chip8
