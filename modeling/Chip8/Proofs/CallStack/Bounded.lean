import Chip8.Proofs.CallStack.Live

/-!
The call stack as a bounded list. Whatever its slots hold, a call stack that starts empty answers
every sequence of calls as a list with room for sixteen addresses does. A stack pointer out of range
is refused by every call, and no slot is ever looked for beyond the sixteen.
-/

namespace Chip8

/-- What can be asked of a call stack. -/
inductive StackCall
  | push (address : UInt16)
  | pop

/-- What a call of a call stack comes to. -/
inductive StackAnswer
  | pushed
  | popped (address : UInt16)
  | refused (fault : Fault)

/-- What an attempt comes to, given what an answer of it stands for. -/
def StackAnswer.ofExcept {α : Type} (answered : α → StackAnswer) : Except Fault α → StackAnswer
  | .ok answer => answered answer
  | .error fault => .refused fault

theorem StackAnswer.eq_error_of_ofExcept {α : Type} {fault : Fault}
    {answered : α → StackAnswer} (hAnswered : ∀ answer, answered answer ≠ .refused fault)
    {answer : Except Fault α} (h : ofExcept answered answer = .refused fault) : answer = .error fault := by
  cases answer with
  | ok answer => exact absurd h (hAnswered answer)
  | error error => rw [ofExcept, refused.injEq] at h; rw [h]

namespace StackCall

variable {σ : Type} (answer : σ → StackCall → StackAnswer × σ)

/-- The answers to calls that are made one after another, and the state that they end in. -/
def answers (state : σ) : List StackCall → List StackAnswer × σ
  | [] => ([], state)
  | call :: rest =>
    let later := answers (answer state call).2 rest
    ((answer state call).1 :: later.1, later.2)

/-- Two ways of answering give the same answers from states that stay related. -/
theorem answers_related {τ : Type} {answer : σ → StackCall → StackAnswer × σ}
    {other : τ → StackCall → StackAnswer × τ} (related : σ → τ → Prop)
    (hAnswer : ∀ state entries call, related state entries →
      (answer state call).1 = (other entries call).1 ∧
        related (answer state call).2 (other entries call).2)
    {state : σ} {entries : τ} (h : related state entries) (calls : List StackCall) :
    (answers answer state calls).1 = (answers other entries calls).1 ∧
      related (answers answer state calls).2 (answers other entries calls).2 := by
  induction calls generalizing state entries with
  | nil => exact ⟨rfl, h⟩
  | cons call rest ih =>
      obtain ⟨hFirst, hNext⟩ := hAnswer state entries call h
      obtain ⟨hLater, hLast⟩ := ih hNext
      exact ⟨by rw [answers, answers, hFirst, hLater], hLast⟩

/-- A call of a list with room for sixteen addresses, the latest one first. -/
def answerBounded (entries : List UInt16) : StackCall → StackAnswer × List UInt16
  | .push address =>
    if entries.length < 16 then (.pushed, address :: entries)
    else (.refused (.stackOverflow address), entries)
  | .pop =>
    match entries with
    | [] => (.refused .stackUnderflow, [])
    | address :: rest => (.popped address, rest)

end StackCall

namespace CallStack

/-- A call of a call stack and the pointer to its top, and what it leaves of them. -/
def Pointed.answer (pointed : Pointed) : StackCall → StackAnswer × Pointed
  | .push address =>
    let attempt := pointed.push address
    (.ofExcept (fun () => .pushed) attempt.answer, attempt.state)
  | .pop =>
    let attempt := pointed.pop
    (.ofExcept .popped attempt.answer, attempt.state)

/-- Whether the live addresses are those of a list, the latest one first. -/
def Pointed.Represents (pointed : Pointed) (entries : List UInt16) : Prop :=
  IsPointer pointed.sp ∧ pointed.stack.live pointed.sp = entries.reverse

variable {sp moved : Int8} {pointed : Pointed} {pushed : CallStack} {address : UInt16}
  {fault : Fault} {entries : List UInt16}

theorem Pointed.answer_push_of_eq_ok
    (h : pointed.stack.push pointed.sp address = .ok (pushed, moved)) :
    pointed.answer (.push address) = (.pushed, ⟨pushed, moved⟩) := by
  rw [answer, show pointed.push address = _ from push_eq_ok_iff.mp h]
  rfl

theorem Pointed.answer_push_of_eq_error (h : pointed.stack.push pointed.sp address = .error fault) :
    pointed.answer (.push address) = (.refused fault, pointed) := by
  rw [answer, show pointed.push address = _ from push_eq_error_iff.mp h]
  rfl

theorem Pointed.answer_pop_of_eq_ok (h : pointed.stack.pop pointed.sp = .ok (address, moved)) :
    pointed.answer .pop = (.popped address, ⟨pointed.stack, moved⟩) := by
  rw [answer, show pointed.pop = _ from pop_eq_ok_iff.mp h]
  rfl

theorem Pointed.answer_pop_of_eq_error (h : pointed.stack.pop pointed.sp = .error fault) :
    pointed.answer .pop = (.refused fault, pointed) := by
  rw [answer, show pointed.pop = _ from pop_eq_error_iff.mp h]
  rfl

theorem Pointed.Represents.length_eq (h : pointed.Represents entries) :
    (entries.length : Int) = pointed.sp.toInt + 1 := by
  rw [← List.length_reverse, ← h.2]
  exact length_live h.1

/-- A push finds room exactly if fewer than sixteen addresses are represented. -/
theorem Pointed.Represents.isSlot_add_one_iff (h : pointed.Represents entries) :
    IsSlot (pointed.sp + 1) ↔ entries.length < 16 := by
  have hLength := h.length_eq
  rw [CallStack.isSlot_add_one_iff]
  omega

/-- Every call is answered as by the list that is represented, and the two stay alike. -/
theorem Pointed.Represents.answer (h : pointed.Represents entries) (call : StackCall) :
    (pointed.answer call).1 = (call.answerBounded entries).1 ∧
      (pointed.answer call).2.Represents (call.answerBounded entries).2 := by
  cases call with
  | push address =>
      by_cases hRoom : entries.length < 16
      · have hPush := push_of_isSlot (h.isSlot_add_one_iff.mpr hRoom) pointed.stack address
        obtain ⟨hMoved, hLive⟩ := live_push h.1 hPush
        rw [StackCall.answerBounded, if_pos hRoom, Pointed.answer_push_of_eq_ok hPush]
        exact ⟨rfl, hMoved, by rw [hLive, h.2, List.reverse_cons]⟩
      · have hPush := push_of_not_isSlot (mt h.isSlot_add_one_iff.mp hRoom) pointed.stack address
        rw [StackCall.answerBounded, if_neg hRoom, Pointed.answer_push_of_eq_error hPush]
        exact ⟨rfl, h⟩
  | pop =>
      have hLength := h.length_eq
      cases entries with
      | nil =>
          have hNoSlot : ¬ IsSlot pointed.sp := by
            unfold IsSlot
            simp only [List.length_nil] at hLength
            omega
          rw [StackCall.answerBounded,
            Pointed.answer_pop_of_eq_error (pop_of_not_isSlot hNoSlot pointed.stack)]
          exact ⟨rfl, h⟩
      | cons address rest =>
          have hSlot : IsSlot pointed.sp := by
            have hPointer := h.1
            unfold IsPointer at hPointer
            unfold IsSlot
            simp only [List.length_cons] at hLength
            omega
          have hPop := pop_of_isSlot hSlot pointed.stack
          obtain ⟨hMoved, hLive⟩ := live_pop hPop
          -- What is popped is the last live address, and so the first one of the list.
          rw [h.2, List.reverse_cons] at hLive
          obtain ⟨hRest, hTop⟩ := List.append_inj' hLive rfl
          rw [StackCall.answerBounded, Pointed.answer_pop_of_eq_ok hPop,
            ← List.head_eq_of_cons_eq hTop]
          exact ⟨rfl, hMoved, hRest.symm⟩

/-- What a call leaves behind is what it found if it is refused. -/
theorem Pointed.answer_refused {call : StackCall}
    (h : (pointed.answer call).1 = .refused fault) : (pointed.answer call).2 = pointed := by
  cases call with
  | push address =>
      exact pointed.isAtomic_push address fault (StackAnswer.eq_error_of_ofExcept (by simp) h)
  | pop => exact pointed.isAtomic_pop fault (StackAnswer.eq_error_of_ofExcept (by simp) h)

/-- A stack pointer out of range is next to no slot and names none. -/
theorem not_isSlot_of_not_isPointer (h : ¬ IsPointer sp) : ¬ IsSlot (sp + 1) ∧ ¬ IsSlot sp := by
  rw [isSlot_add_one_iff]
  unfold IsPointer at h
  unfold IsSlot
  omega

/-- Whatever is in the slots, a stack that starts empty answers every sequence of calls as a list
with room for sixteen addresses does, and its pointer is one less than the number of addresses in
that list. A refused call leaves the stack and the pointer as they were; a pointer outside -1 to 15
is refused by both calls. No pointer ever wraps, and a call that is not refused uses exactly the
slot that the pointer names. -/
theorem answers_as_bounded_list (stack : CallStack) :
    (∀ calls : List StackCall,
      let run := StackCall.answers Pointed.answer ⟨stack, -1⟩ calls
      let reference := StackCall.answers StackCall.answerBounded [] calls
      run.1 = reference.1 ∧ reference.2.length ≤ 16 ∧
        run.2.sp.toInt = (reference.2.length : Int) - 1) ∧
    (∀ sp call fault, (Pointed.answer ⟨stack, sp⟩ call).1 = .refused fault →
      (Pointed.answer ⟨stack, sp⟩ call).2 = ⟨stack, sp⟩) ∧
    (∀ sp : Int8, ¬ (-1 ≤ sp.toInt ∧ sp.toInt ≤ 15) →
      (∀ address, Pointed.answer ⟨stack, sp⟩ (.push address) =
        (.refused (.stackOverflow address), ⟨stack, sp⟩)) ∧
      Pointed.answer ⟨stack, sp⟩ .pop = (.refused .stackUnderflow, ⟨stack, sp⟩)) ∧
    (∀ sp address pushed moved, stack.push sp address = .ok (pushed, moved) →
      IsSlot moved ∧ moved.toInt = sp.toInt + 1 ∧
        ∀ slot : Fin 16, pushed.slots.get slot =
          if (slot.val : Int) = moved.toInt then address else stack.slots.get slot) ∧
    ∀ sp address moved, stack.pop sp = .ok (address, moved) →
      IsSlot sp ∧ moved.toInt = sp.toInt - 1 ∧
        ∃ slot : Fin 16, (slot.val : Int) = sp.toInt ∧ stack.slots.get slot = address := by
  refine ⟨fun calls => ?_, fun sp call fault => Pointed.answer_refused, fun sp hOut => ?_,
    fun sp address pushed moved => slots_push, fun sp address moved => slot_pop⟩
  · have hEmpty : Pointed.Represents ⟨stack, -1⟩ [] :=
      ⟨show IsPointer (-1) by decide, rfl⟩
    obtain ⟨hAnswers, hEnd⟩ := StackCall.answers_related Pointed.Represents
      (fun _ _ call hRelated => hRelated.answer call) hEmpty calls
    have hLength := hEnd.length_eq
    have hPointer := hEnd.1
    unfold IsPointer at hPointer
    exact ⟨hAnswers, by omega, by omega⟩
  · obtain ⟨hAbove, hSlot⟩ := not_isSlot_of_not_isPointer hOut
    refine ⟨fun address => ?_, ?_⟩
    · exact Pointed.answer_push_of_eq_error (push_of_not_isSlot hAbove stack address)
    · exact Pointed.answer_pop_of_eq_error (pop_of_not_isSlot hSlot stack)

end CallStack

end Chip8
