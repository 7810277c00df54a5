import Chip8.CallStack

/-!
What a push and a pop come to. Neither ever wraps the stack pointer around, and each uses one slot.
The live addresses are those up to the slot on top: as long as the stack pointer never leaves its
range, pushing appends an address to them and popping takes the last one away.
-/

namespace Chip8.CallStack

/-- Whether a stack pointer belongs to a stack of at most sixteen addresses. -/
def IsPointer (sp : Int8) : Prop :=
  -1 ≤ sp.toInt ∧ sp.toInt ≤ 15

instance (sp : Int8) : Decidable (IsPointer sp) :=
  inferInstanceAs (Decidable (_ ∧ _))

/-- The addresses that were pushed and not popped yet, oldest first. -/
def live (stack : CallStack) (sp : Int8) : List UInt16 :=
  stack.slots.toList.take (sp.toInt + 1).toNat

variable {stack pushed : CallStack} {sp moved : Int8} {address : UInt16}

theorem length_live (h : IsPointer sp) : ((stack.live sp).length : Int) = sp.toInt + 1 := by
  unfold IsPointer at h
  simp only [live, List.length_take, Vector.length_toList]
  omega

theorem toInt_add_one (h : IsPointer sp) : (sp + 1).toInt = sp.toInt + 1 := by
  have hOne : (1 : Int8).toInt = 1 := rfl
  unfold IsPointer at h
  rw [Int8.toInt_add, hOne, Int.bmod_eq_of_le] <;> omega

theorem toInt_add_one_of_isSlot (h : IsSlot (sp + 1)) : (sp + 1).toInt = sp.toInt + 1 := by
  have hOne : (1 : Int8).toInt = 1 := rfl
  have hLow := sp.le_toInt
  have hHigh := sp.toInt_lt
  unfold IsSlot at h
  rw [Int8.toInt_add, hOne] at h ⊢
  rw [Int.bmod_def] at h ⊢
  omega

theorem isSlot_add_one_iff {sp : Int8} :
    IsSlot (sp + 1) ↔ 0 ≤ sp.toInt + 1 ∧ sp.toInt + 1 ≤ 15 := by
  constructor
  · intro hSlot
    have hNext := toInt_add_one_of_isSlot hSlot
    unfold IsSlot at hSlot
    omega
  · intro hRoom
    have hPointer : IsPointer sp := ⟨by omega, by omega⟩
    have hNext := toInt_add_one hPointer
    exact ⟨by omega, by omega⟩

theorem toInt_sub_one (h : IsSlot sp) : (sp - 1).toInt = sp.toInt - 1 := by
  have hOne : (1 : Int8).toInt = 1 := rfl
  unfold IsSlot at h
  rw [Int8.toInt_sub, hOne, Int.bmod_eq_of_le] <;> omega

theorem push_of_isSlot (h : IsSlot (sp + 1)) (stack : CallStack) (address : UInt16) :
    stack.push sp address =
      .ok (⟨stack.slots.set (sp + 1).toInt.toNat address h.toNat_lt⟩, sp + 1) := by
  rw [push_eq_ok_iff, Pointed.push, dif_pos h]

theorem push_of_not_isSlot (h : ¬ IsSlot (sp + 1)) (stack : CallStack) (address : UInt16) :
    stack.push sp address = .error (.stackOverflow address) := by
  rw [push_eq_error_iff, Pointed.push, dif_neg h]

theorem pop_of_isSlot (h : IsSlot sp) (stack : CallStack) :
    stack.pop sp = .ok (stack.slots.get ⟨sp.toInt.toNat, h.toNat_lt⟩, sp - 1) := by
  rw [pop_eq_ok_iff, Pointed.pop, dif_pos h]

theorem pop_of_not_isSlot (h : ¬ IsSlot sp) (stack : CallStack) :
    stack.pop sp = .error .stackUnderflow := by
  rw [pop_eq_error_iff, Pointed.pop, dif_neg h]

theorem of_push_eq_ok (hPush : stack.push sp address = .ok (pushed, moved)) :
    ∃ h : IsSlot (sp + 1),
      pushed = ⟨stack.slots.set (sp + 1).toInt.toNat address h.toNat_lt⟩ ∧ moved = sp + 1 := by
  by_cases hSlot : IsSlot (sp + 1)
  · rw [push_of_isSlot hSlot] at hPush
    obtain ⟨rfl, rfl⟩ := Prod.mk.inj (Except.ok.inj hPush)
    exact ⟨hSlot, rfl, rfl⟩
  · rw [push_of_not_isSlot hSlot] at hPush
    cases hPush

theorem of_pop_eq_ok (hPop : stack.pop sp = .ok (address, moved)) :
    ∃ h : IsSlot sp,
      address = stack.slots.get ⟨sp.toInt.toNat, h.toNat_lt⟩ ∧ moved = sp - 1 := by
  by_cases hSlot : IsSlot sp
  · rw [pop_of_isSlot hSlot] at hPop
    obtain ⟨rfl, rfl⟩ := Prod.mk.inj (Except.ok.inj hPop)
    exact ⟨hSlot, rfl, rfl⟩
  · rw [pop_of_not_isSlot hSlot] at hPop
    cases hPop

/-- Only a stack with all slots live has no room. -/
theorem toInt_of_push_eq_error {fault : Fault} (h : IsPointer sp)
    (hPush : stack.push sp address = .error fault) : sp.toInt = 15 := by
  by_cases hSlot : IsSlot (sp + 1)
  · rw [push_of_isSlot hSlot] at hPush
    cases hPush
  · rw [isSlot_add_one_iff] at hSlot
    unfold IsPointer at h
    omega

/-- A push moves the pointer up by one, without wrapping, and puts the address in the slot there. -/
theorem slots_push (hPush : stack.push sp address = .ok (pushed, moved)) :
    IsSlot moved ∧ moved.toInt = sp.toInt + 1 ∧
      ∀ slot : Fin 16, pushed.slots.get slot =
        if (slot.val : Int) = moved.toInt then address else stack.slots.get slot := by
  obtain ⟨hSlot, rfl, rfl⟩ := of_push_eq_ok hPush
  refine ⟨hSlot, toInt_add_one_of_isSlot hSlot, fun slot => ?_⟩
  have hTop : (slot.val : Int) = (sp + 1).toInt ↔ (sp + 1).toInt.toNat = slot.val := by
    unfold IsSlot at hSlot
    omega
  simp only [hTop]
  exact Vector.getElem_set hSlot.toNat_lt slot.isLt

/-- A pop moves the pointer down by one, without wrapping, and reads the slot that it named. -/
theorem slot_pop (hPop : stack.pop sp = .ok (address, moved)) :
    IsSlot sp ∧ moved.toInt = sp.toInt - 1 ∧
      ∃ slot : Fin 16, (slot.val : Int) = sp.toInt ∧ stack.slots.get slot = address := by
  obtain ⟨hSlot, rfl, rfl⟩ := of_pop_eq_ok hPop
  exact ⟨hSlot, toInt_sub_one hSlot, ⟨sp.toInt.toNat, hSlot.toNat_lt⟩,
    Int.toNat_of_nonneg hSlot.1, rfl⟩

/-- A push changes no slot but the one above the pointer. -/
theorem toInt_of_get_push_ne (hPush : stack.push sp address = .ok (pushed, moved)) {slot : Fin 16}
    (hChanged : pushed.slots.get slot ≠ stack.slots.get slot) :
    (slot.val : Int) = sp.toInt + 1 := by
  obtain ⟨-, hMoved, hSlots⟩ := slots_push hPush
  apply Decidable.byContradiction
  intro hOther
  exact hChanged ((hSlots slot).trans (if_neg (hMoved ▸ hOther)))

theorem live_push (h : IsPointer sp) (hPush : stack.push sp address = .ok (pushed, moved)) :
    IsPointer moved ∧ pushed.live moved = stack.live sp ++ [address] := by
  obtain ⟨hSlot, rfl, rfl⟩ := of_push_eq_ok hPush
  have hNext := toInt_add_one h
  have hTop : ((sp + 1).toInt + 1).toNat = (sp + 1).toInt.toNat + 1 := by
    unfold IsSlot at hSlot
    omega
  have hBelow : (sp.toInt + 1).toNat = (sp + 1).toInt.toNat := by rw [hNext]
  have hLength : (sp + 1).toInt.toNat < stack.slots.toList.length := by
    rw [Vector.length_toList]
    exact hSlot.toNat_lt
  refine ⟨?_, ?_⟩
  · unfold IsSlot at hSlot
    unfold IsPointer
    omega
  · rw [live, live, hTop, hBelow, Vector.toList_set, List.take_add_one,
      List.take_set_of_le (Nat.le_refl _), List.getElem?_set_self hLength]
    rfl

theorem live_pop (hPop : stack.pop sp = .ok (address, moved)) :
    IsPointer moved ∧ stack.live sp = stack.live moved ++ [address] := by
  obtain ⟨hSlot, rfl, rfl⟩ := of_pop_eq_ok hPop
  have hNext := toInt_sub_one hSlot
  have hTop : (sp.toInt + 1).toNat = sp.toInt.toNat + 1 := by
    unfold IsSlot at hSlot
    omega
  have hBelow : ((sp - 1).toInt + 1).toNat = sp.toInt.toNat := by rw [hNext]; omega
  have hLength : sp.toInt.toNat < stack.slots.toList.length := by
    rw [Vector.length_toList]
    exact hSlot.toNat_lt
  refine ⟨?_, ?_⟩
  · unfold IsSlot at hSlot
    unfold IsPointer
    omega
  · rw [live, live, hTop, hBelow, List.take_add_one, List.getElem?_eq_getElem hLength]
    rfl

end Chip8.CallStack
