import Chip8.Proofs.CallStack.Live
import Chip8.Proofs.Machine.Blocks
import Chip8.Proofs.Machine.Step

/-!
Return addresses. A call appends the address behind it to the live addresses, a return goes on at
the last of them and takes it away, and nothing else touches the call stack.
-/

namespace Chip8

open CallStack (IsPointer)

namespace Machine

/-- The addresses that the calls in progress return to, the innermost one last. -/
def returns (machine : Machine) : List UInt16 :=
  machine.stack.live machine.registers.sp

def SameCalls (machine final : Machine) : Prop :=
  final.stack = machine.stack ∧ final.registers.sp = machine.registers.sp

variable {machine final : Machine}

theorem SameCalls.returns_eq (h : SameCalls machine final) : final.returns = machine.returns := by
  rw [returns, returns, h.1, h.2]

theorem SameCalls.isPointer (h : SameCalls machine final)
    (hPointer : IsPointer machine.registers.sp) : IsPointer final.registers.sp := by
  rwa [h.2]

theorem SameCalls.trans {middle : Machine} (h : SameCalls machine middle)
    (h' : SameCalls middle final) : SameCalls machine final :=
  ⟨h'.1.trans h.1, h'.2.trans h.2⟩

theorem length_returns (h : IsPointer machine.registers.sp) :
    (machine.returns.length : Int) = machine.registers.sp.toInt + 1 :=
  CallStack.length_live h

theorem writeBlock_sameCalls (address : UInt16) (bytes : List UInt8) :
    SameCalls machine (machine.writeBlock address bytes).machine := by
  obtain ⟨memory, hFinal⟩ := machine.machine_writeBlock address bytes
  rw [hFinal]
  exact ⟨rfl, rfl⟩

theorem readBlock_sameCalls (address : UInt16) (registers : List Register) :
    SameCalls machine (machine.readBlock address registers).machine := by
  obtain ⟨v, hFinal⟩ := machine.machine_readBlock address registers
  rw [hFinal]
  exact ⟨rfl, rfl⟩

theorem passBlock_sameCalls (x : Register) : SameCalls machine (machine.passBlock x) := by
  unfold passBlock
  split <;> exact ⟨rfl, rfl⟩

/-- Only calls and returns touch the call stack. -/
theorem execute_sameCalls (held : UInt8 → Bool) {instruction : Instruction}
    (hCall : ∀ target, instruction ≠ .call target) (hRet : instruction ≠ .ret) :
    SameCalls machine (machine.execute held instruction).machine := by
  cases instruction with
  | ret => exact absurd rfl hRet
  | call target => exact absurd rfl (hCall target)
  | skipIf condition =>
      simp only [execute, Outcome.done, skipWhen]
      split <;> exact ⟨rfl, rfl⟩
  | arithmetic operation x y =>
      simp only [execute, Outcome.done, applyArithmetic]
      split <;> exact ⟨rfl, rfl⟩
  | draw x y rows =>
      simp only [execute, draw]
      split <;> exact ⟨rfl, rfl⟩
  | decimal x => exact writeBlock_sameCalls _ _
  | store x =>
      apply Outcome.andThen_keeps (motive := SameCalls machine)
      · exact writeBlock_sameCalls _ _
      · intro stored hStored
        exact hStored.trans (passBlock_sameCalls x)
  | load x =>
      apply Outcome.andThen_keeps (motive := SameCalls machine)
      · exact readBlock_sameCalls _ _
      · intro loaded hLoaded
        exact hLoaded.trans (passBlock_sameCalls x)
  | _ => exact ⟨rfl, rfl⟩

/-- A call keeps the address behind it, if there is room for it. -/
theorem returns_call (h : IsPointer machine.registers.sp) (address : UInt16) :
    IsPointer (machine.call address).machine.registers.sp ∧
      ((machine.call address).machine.returns = machine.returns ++ [machine.registers.pc] ∨
        machine.registers.sp.toInt = 15 ∧
          (machine.call address).machine.returns = machine.returns) := by
  cases hPush : machine.stack.push machine.registers.sp machine.registers.pc with
  | ok pushed =>
      rw [call_of_push_eq_ok hPush]
      obtain ⟨hPointer, hLive⟩ := CallStack.live_push h hPush
      exact ⟨hPointer, .inl hLive⟩
  | error fault =>
      rw [call_of_push_eq_error hPush]
      have hFull := CallStack.toInt_of_push_eq_error h hPush
      cases machine.config.strict with
      | false => exact ⟨h, .inr ⟨hFull, rfl⟩⟩
      | true => exact ⟨h, .inr ⟨hFull, rfl⟩⟩

/-- A return goes on at the last of the live addresses, if there is one. -/
theorem returns_ret (h : IsPointer machine.registers.sp) :
    IsPointer machine.ret.machine.registers.sp ∧
      (machine.ret.machine.returns = machine.returns ∨
        machine.returns = machine.ret.machine.returns ++ [machine.ret.machine.registers.pc]) := by
  cases hPop : machine.stack.pop machine.registers.sp with
  | ok popped =>
      rw [ret_of_pop_eq_ok hPop]
      obtain ⟨hPointer, hLive⟩ := CallStack.live_pop hPop
      exact ⟨hPointer, .inr hLive⟩
  | error fault =>
      rw [ret_of_pop_eq_error hPop]
      cases machine.config.strict with
      | false => exact ⟨h, .inl rfl⟩
      | true => exact ⟨h, .inl rfl⟩

theorem returns_execute (h : IsPointer machine.registers.sp) (held : UInt8 → Bool)
    (instruction : Instruction) :
    let final := (machine.execute held instruction).machine
    IsPointer final.registers.sp ∧
      (final.returns = machine.returns ∨
        final.returns = machine.returns ++ [machine.registers.pc] ∨
        instruction = .ret ∧ machine.returns = final.returns ++ [final.registers.pc]) := by
  by_cases hRet : instruction = .ret
  · subst hRet
    obtain ⟨hPointer, hReturns⟩ := returns_ret h
    exact ⟨hPointer, hReturns.imp_right fun hBack => .inr ⟨rfl, hBack⟩⟩
  · by_cases hCall : ∃ target, instruction = .call target
    · obtain ⟨target, rfl⟩ := hCall
      obtain ⟨hPointer, hReturns⟩ := returns_call h (UInt16.ofNat target.val)
      refine ⟨hPointer, ?_⟩
      rcases hReturns with hEntered | ⟨-, hSame⟩
      · exact .inr (.inl hEntered)
      · exact .inl hSame
    · have hSame : SameCalls machine _ := execute_sameCalls held (not_exists.mp hCall) hRet
      exact ⟨hSame.isPointer h, .inl hSame.returns_eq⟩

variable {κ : Type} [KeyInput κ]

/-- A step enters a call, goes back from one by 00EE, or keeps the calls in progress. -/
theorem returns_step (h : IsPointer machine.registers.sp) (keys : κ) :
    let final := (machine.step keys).outcome.machine
    IsPointer final.registers.sp ∧
      (final.returns = machine.returns ∨
        final.returns = machine.returns ++ [machine.registers.pc + 2] ∨
        machine.upcoming? = some 0x00EE ∧
          machine.returns = final.returns ++ [final.registers.pc]) := by
  dsimp only
  cases hWord : machine.upcoming? with
  | none =>
      obtain ⟨v, awaiting, hFinal⟩ := machine_step_of_upcoming?_eq_none hWord keys
      rw [hFinal]
      exact ⟨h, .inl rfl⟩
  | some word =>
      rw [machine_step_of_upcoming? hWord]
      cases hDecode : word.decode with
      | none => exact ⟨h, .inl rfl⟩
      | some instruction =>
          have hFetched : IsPointer (machine.fetched word).registers.sp := h
          obtain ⟨hPointer, hSame | hEntered | ⟨hRet, hBack⟩⟩ :=
            returns_execute hFetched (KeyInput.isHeld keys) instruction
          · exact ⟨hPointer, .inl hSame⟩
          · exact ⟨hPointer, .inr (.inl hEntered)⟩
          · rw [hRet, Word.decode_eq_some_ret_iff] at hDecode
            exact ⟨hPointer, .inr (.inr ⟨congrArg some hDecode, hBack⟩)⟩

/-- A step that executes 2nnn keeps the address behind it, as long as there is room. -/
theorem returns_step_of_call {word : Word} (h : IsPointer machine.registers.sp)
    (hWord : machine.upcoming? = some word) (hCall : word.family = 0x2)
    (hRoom : machine.registers.sp.toInt < 15) (keys : κ) :
    (machine.step keys).outcome.machine.returns =
      machine.returns ++ [machine.registers.pc + 2] := by
  rw [machine_step_of_upcoming? hWord, Word.decode_of_family_two hCall]
  have hFetched : IsPointer (machine.fetched word).registers.sp := h
  rcases (returns_call hFetched (UInt16.ofNat word.target.val)).2 with hEntered | ⟨hFull, -⟩
  · exact hEntered
  · exact absurd hFull (Int.ne_of_lt hRoom)

/-- A step that goes below a call in progress goes back from it. -/
theorem returns_step_below {returns : List UInt16} {address : UInt16}
    (h : IsPointer machine.registers.sp) (hCalled : returns ++ [address] <+: machine.returns)
    (keys : κ)
    (hBelow : (machine.step keys).outcome.machine.returns.length ≤ returns.length) :
    machine.upcoming? = some 0x00EE ∧ (machine.step keys).outcome.machine.returns = returns ∧
      (machine.step keys).outcome.machine.registers.pc = address := by
  have hLength := hCalled.length_le
  rw [List.length_append, List.length_singleton] at hLength
  obtain ⟨-, hSame | hEntered | ⟨hRet, hBack⟩⟩ := returns_step h keys
  · rw [hSame] at hBelow
    omega
  · rw [hEntered, List.length_append] at hBelow
    omega
  · -- The return takes away one address and leaves no more than `returns`, so there was no other.
    have hEqual : returns ++ [address] = machine.returns := by
      refine hCalled.eq_of_length_le ?_
      rw [hBack, List.length_append, List.length_append, List.length_singleton,
        List.length_singleton]
      omega
    rw [hBack] at hEqual
    obtain ⟨hReturns, hAddress⟩ := List.append_inj' hEqual rfl
    exact ⟨hRet, hReturns.symm, (List.singleton_inj.mp hAddress).symm⟩

end Machine

end Chip8
