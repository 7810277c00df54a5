import Chip8.Keys.Keypad
import Chip8.Proofs.CallStack.Returns
import Chip8.Proofs.Session

/-!
Calls in a session. Whatever a program does and however deep its calls go, it can neither lose nor
change the address that a call returns to.
-/

namespace Chip8

open CallStack (IsPointer)

namespace Session

variable {κ ε : Type} [KeyInput κ] (react : ε → κ → κ)

theorem isPointer_act (session : Session κ) (act : Act ε)
    (h : IsPointer session.machine.registers.sp) :
    IsPointer (session.act react act).machine.registers.sp := by
  cases act with
  | step => exact (Machine.returns_step h session.keys).1
  | tick => exact h
  | touch event => exact h

/-- Until a call has gone back, the address that it returns to stays where it is, and so do those
below it. -/
theorem returns_play {session : Session κ} {returns : List UInt16}
    (hPointer : IsPointer session.machine.registers.sp)
    (hCalled : returns <+: session.machine.returns) (acts : List (Act ε))
    (hInside : ∀ earlier later, acts = earlier ++ .step :: later →
      returns.length ≤ ((session.play react earlier).act react .step).machine.returns.length) :
    returns <+: (session.play react acts).machine.returns := by
  induction acts generalizing session with
  | nil => exact hCalled
  | cons first rest ih =>
      refine ih (isPointer_act react session first hPointer) ?_ ?_
      · cases first with
        | tick => exact hCalled
        | touch event => exact hCalled
        | step =>
            obtain ⟨-, hSame | hEntered | ⟨-, hBack⟩⟩ := Machine.returns_step hPointer session.keys
            · rw [act, hSame]
              exact hCalled
            · rw [act, hEntered]
              exact hCalled.trans (List.prefix_append ..)
            · -- A return inside the call takes away an address above those that the call keeps.
              rw [hBack] at hCalled
              exact List.prefix_of_prefix_length_le hCalled (List.prefix_append ..)
                (hInside [] rest rfl)
      · intro earlier later hActs
        exact hInside (first :: earlier) later (by rw [hActs]; rfl)

/-- A stack pointer in range stays in range, and every call is returned from to the address behind
it. When a step executes 2nnn with room on the call stack, then the first later step after which
fewer calls are in progress executes 00EE, restores the stack pointer and goes on behind the
call. -/
theorem call_returns_behind_itself (start : Session κ)
    (hStart : IsPointer start.machine.registers.sp) :
    (∀ acts : List (Act ε), IsPointer (start.play react acts).machine.registers.sp) ∧
    ∀ (before between : List (Act ε)) (word : Word),
      let caller := start.play react before
      let called := caller.act react .step
      let last := called.play react between
      let final := last.act react .step
      caller.machine.upcoming? = some word → word.family = 0x2 →
      caller.machine.registers.sp.toInt < 15 →
      (∀ earlier later, between = earlier ++ .step :: later →
        caller.machine.registers.sp.toInt + 1 ≤
          ((called.play react earlier).act react .step).machine.registers.sp.toInt) →
      final.machine.registers.sp.toInt < caller.machine.registers.sp.toInt + 1 →
      last.machine.upcoming? = some 0x00EE ∧
        final.machine.registers.sp = caller.machine.registers.sp ∧
        final.machine.registers.pc = caller.machine.registers.pc + 2 := by
  have hPointer (session : Session κ) (h : IsPointer session.machine.registers.sp)
      (acts : List (Act ε)) : IsPointer (session.play react acts).machine.registers.sp :=
    play_keeps (motive := fun session => IsPointer session.machine.registers.sp) react session
      (isPointer_act react) h acts
  refine ⟨hPointer start hStart, ?_⟩
  intro before between word caller called last final hWord hCall hRoom hInside hOutside
  have hCaller : IsPointer caller.machine.registers.sp := hPointer start hStart before
  have hCalled : IsPointer called.machine.registers.sp := isPointer_act react caller .step hCaller
  have hLast : IsPointer last.machine.registers.sp := hPointer called hCalled between
  have hFinal : IsPointer final.machine.registers.sp := isPointer_act react last .step hLast
  have hEntered : called.machine.returns =
      caller.machine.returns ++ [caller.machine.registers.pc + 2] :=
    Machine.returns_step_of_call hCaller hWord hCall hRoom caller.keys
  have hCallerDepth := Machine.length_returns hCaller
  have hFinalDepth := Machine.length_returns hFinal
  have hKept : caller.machine.returns ++ [caller.machine.registers.pc + 2] <+:
      last.machine.returns := by
    refine returns_play react hCalled (hEntered ▸ List.prefix_refl _) between ?_
    intro earlier later hBetween
    have hDepth := Machine.length_returns
      (isPointer_act react _ .step (hPointer called hCalled earlier))
    have hAbove := hInside earlier later hBetween
    rw [List.length_append, List.length_singleton]
    omega
  have hBelow : final.machine.returns.length ≤ caller.machine.returns.length := by omega
  obtain ⟨hRet, hReturns, hAddress⟩ :=
    Machine.returns_step_below hLast hKept last.keys hBelow
  have hRestored : final.machine.returns = caller.machine.returns := hReturns
  refine ⟨hRet, Int8.toInt_inj.mp ?_, hAddress⟩
  rw [hRestored] at hFinalDepth
  omega

/-- A call at 0x200 of a routine at 0x204 that calls another one at 0x208. -/
theorem call_returns_behind_itself_around_another :
    let untouched : Unit → Keypad → Keypad := fun _ keys => keys
    let start : Session Keypad :=
      ⟨{ Machine.initial {} (.ofSeed 0) with
          memory := Memory.install ⟨Vector.replicate 4096 0⟩ 0x200
            [0x22, 0x04, 0x00, 0x00, 0x22, 0x08, 0x00, 0xEE, 0x00, 0xEE] },
        .initial⟩
    let between : List (Act Unit) := [.step, .tick, .step]
    let called := start.act untouched .step
    let last := called.play untouched between
    let final := last.act untouched .step
    IsPointer start.machine.registers.sp ∧
    start.machine.upcoming? = some 0x2204 ∧
    start.machine.registers.sp.toInt < 15 ∧
    (∀ earlier later, between = earlier ++ .step :: later →
      start.machine.registers.sp.toInt + 1 ≤
        ((called.play untouched earlier).act untouched .step).machine.registers.sp.toInt) ∧
    final.machine.registers.sp.toInt < start.machine.registers.sp.toInt + 1 ∧
    last.machine.upcoming? = some 0x00EE ∧
    final.machine.registers.sp = start.machine.registers.sp ∧
    final.machine.registers.pc = start.machine.registers.pc + 2 := by
  intro untouched start between called last final
  have hEvaluated : start.machine.upcoming? = some 0x2204 ∧
      start.machine.registers.sp.toInt + 1 ≤
        ((called.play untouched []).act untouched .step).machine.registers.sp.toInt ∧
      start.machine.registers.sp.toInt + 1 ≤
        ((called.play untouched [.step, .tick]).act untouched .step).machine.registers.sp.toInt ∧
      final.machine.registers.sp.toInt < start.machine.registers.sp.toInt + 1 := by
    decide +kernel +revert
  obtain ⟨hWord, hFirst, hSecond, hOutside⟩ := hEvaluated
  have hInside : ∀ earlier later, between = earlier ++ .step :: later →
      start.machine.registers.sp.toInt + 1 ≤
        ((called.play untouched earlier).act untouched .step).machine.registers.sp.toInt := by
    intro earlier later hBetween
    simp only [between, List.cons_eq_append_iff, List.cons.injEq, true_and, reduceCtorEq, false_and,
      and_false, List.nil_eq, List.append_eq_nil_iff, exists_const, or_false, false_or] at hBetween
    rcases hBetween with ⟨rfl, -⟩ | ⟨_, rfl, _, rfl, rfl, -⟩
    · exact hFirst
    · exact hSecond
  have hStart : IsPointer start.machine.registers.sp := by decide
  have hRoom : start.machine.registers.sp.toInt < 15 := by decide
  obtain ⟨hRet, hPointer, hAddress⟩ :=
    (call_returns_behind_itself untouched start hStart).2 [] between 0x2204 hWord rfl hRoom hInside
      hOutside
  exact ⟨hStart, hWord, hRoom, hInside, hOutside, hRet, hPointer, hAddress⟩

end Session

end Chip8
