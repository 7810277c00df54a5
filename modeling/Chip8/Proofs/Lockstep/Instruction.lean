import Chip8.Proofs.Lockstep.Outcome

/-!
Every instruction keeps a permissive machine and the strict one in lockstep. Memory and the call
stack are looked at where they are accessed; for a sprite the strict machine looks at the last row
alone, and before anything is drawn.
-/

namespace Chip8

/-- A read gives a warning exactly where the strict form of it fails. -/
theorem Memory.breach_get_iff (memory : Memory) (address : UInt16) :
    (memory.get address).notices.any Notice.isBreach = true ↔ 4096 ≤ address.toNat := by
  unfold get
  cases hGet : memory.tryGet address with
  | ok byte =>
      refine iff_of_false Bool.false_ne_true fun hBeyond => ?_
      rw [(tryGet_eq_error_iff memory address _).mpr ⟨hBeyond, rfl⟩] at hGet
      cases hGet
  | error fault =>
      have hBeyond := ((tryGet_eq_error_iff memory address fault).mp hGet).1
      exact iff_of_true rfl hBeyond

namespace Machine

variable {machine : Machine}

theorem writeByte_lockstep (h : machine.config.strict = false) (address : UInt16) (value : UInt8) :
    (machine.writeByte address value).Lockstep
      ((machine.withStrict true).writeByte address value) := by
  cases hSet : machine.memory.trySet address value with
  | ok memory =>
      have hStrict : (machine.withStrict true).memory.trySet address value = .ok memory := hSet
      rw [writeByte_of_trySet_eq_ok hSet, writeByte_of_trySet_eq_ok hStrict]
      exact .done h
  | error fault =>
      have hStrict : (machine.withStrict true).memory.trySet address value = .error fault := hSet
      rw [writeByte_of_trySet_eq_error hSet, writeByte_of_trySet_eq_error hStrict, h]
      exact .of_breach h rfl rfl (Option.some_ne_none fault)

theorem writeBlock_lockstep (h : machine.config.strict = false) (address : UInt16)
    (bytes : List UInt8) :
    (machine.writeBlock address bytes).Lockstep
      ((machine.withStrict true).writeBlock address bytes) := by
  induction bytes generalizing machine address with
  | nil => exact .done h
  | cons byte rest ih =>
      exact (writeByte_lockstep h address byte).andThen fun next hNext => ih hNext (address + 1)

theorem loadV_lockstep (h : machine.config.strict = false) (x : Register) (address : UInt16) :
    (machine.loadV x address).Lockstep ((machine.withStrict true).loadV x address) := by
  rw [loadV, loadV, readByte, readByte, h, strict_withStrict, memory_withStrict,
    if_neg Bool.false_ne_true, if_pos rfl]
  cases hGet : machine.memory.tryGet address with
  | ok value =>
      simp only [Memory.get, hGet]
      exact .done h
  | error fault =>
      simp only [Memory.get, hGet]
      exact .of_breach h rfl rfl (Option.some_ne_none fault)

theorem readBlock_lockstep (h : machine.config.strict = false) (address : UInt16)
    (registers : List Register) :
    (machine.readBlock address registers).Lockstep
      ((machine.withStrict true).readBlock address registers) := by
  induction registers generalizing machine address with
  | nil => exact .done h
  | cons x rest ih =>
      exact (loadV_lockstep h x address).andThen fun next hNext => ih hNext (address + 1)

theorem call_lockstep (h : machine.config.strict = false) (address : UInt16) :
    (machine.call address).Lockstep ((machine.withStrict true).call address) := by
  cases hPush : machine.stack.push machine.registers.sp machine.registers.pc with
  | ok pushed =>
      have hStrict : (machine.withStrict true).stack.push _ _ = .ok pushed := hPush
      rw [call_of_push_eq_ok hPush, call_of_push_eq_ok hStrict]
      exact .done h
  | error fault =>
      have hStrict : (machine.withStrict true).stack.push _ _ = .error fault := hPush
      rw [call_of_push_eq_error hPush, call_of_push_eq_error hStrict, h]
      exact .of_breach h rfl rfl (Option.some_ne_none fault)

theorem ret_lockstep (h : machine.config.strict = false) :
    machine.ret.Lockstep (machine.withStrict true).ret := by
  cases hPop : machine.stack.pop machine.registers.sp with
  | ok popped =>
      have hStrict : (machine.withStrict true).stack.pop _ = .ok popped := hPop
      rw [ret_of_pop_eq_ok hPop, ret_of_pop_eq_ok hStrict]
      exact .done h
  | error fault =>
      have hStrict : (machine.withStrict true).stack.pop _ = .error fault := hPop
      rw [ret_of_pop_eq_error hPop, ret_of_pop_eq_error hStrict, h]
      exact .of_breach h rfl rfl (Option.some_ne_none fault)

end Machine

/-- Flipping pixels only ever remarks on the edge of the screen. -/
theorem Drawn.breach_flipAll (drawn : Drawn) (points : List (Int × Int)) :
    (drawn.flipAll points).notices.any Notice.isBreach = false := by
  induction points generalizing drawn with
  | nil => rfl
  | cons point rest ih =>
      have hFlip : (drawn.flip point.1 point.2).notices.any Notice.isBreach = false := by
        unfold flip
        split
        · rfl
        · rw [Logged.notices_bind]
          unfold Screen.clip
          split <;> rfl
      simp only [flipAll, Logged.notices_bind, List.any_append, hFlip, ih, Bool.or_false]

/-- Drawing gives a warning exactly if one of the rows lies behind memory. -/
theorem Screen.breach_drawRows_iff (memory : Memory) (x : Int) (rows : Nat) (y : Int)
    (address : UInt16) (drawn : Drawn) :
    (drawRows memory x rows y address drawn).notices.any Notice.isBreach = true ↔
      ∃ row < rows, 4096 ≤ (address + UInt16.ofNat row).toNat := by
  induction rows generalizing y address drawn with
  | zero => simp [drawRows]
  | succ rows ih =>
      simp only [drawRows, Logged.notices_bind, List.any_append, Drawn.breach_flipAll,
        Bool.false_or, Bool.or_eq_true, Memory.breach_get_iff, ih]
      constructor
      · rintro (hFirst | ⟨row, hRow, hBeyond⟩)
        · exact ⟨0, by omega, by simpa using hFirst⟩
        · refine ⟨row + 1, by omega, ?_⟩
          rwa [Memory.address_add_succ]
      · rintro ⟨row, hRow, hBeyond⟩
        cases row with
        | zero => exact .inl (by simpa using hBeyond)
        | succ row =>
            refine .inr ⟨row, by omega, ?_⟩
            rwa [Memory.address_add_succ] at hBeyond

namespace Machine

variable {machine : Machine}

/-- Looking at the last row is enough, although the address of a row wraps around and the address
of the last one that is looked at does not. -/
theorem exists_row_beyond_iff (address : UInt16) (rows : Fin 16) :
    (∃ row < rows.val, 4096 ≤ (address + UInt16.ofNat row).toNat) ↔
      0 < rows.val ∧ 4096 ≤ (spriteEnd address rows).toNat := by
  have hAddress := address.toNat_lt
  have hRows := rows.isLt
  simp only [spriteEnd, UInt16.toNat_add, UInt16.toNat_ofNat']
  constructor
  · rintro ⟨row, hRow, hBeyond⟩
    omega
  · -- A sprite that begins in memory is too short to wrap around before it ends.
    rintro ⟨hPos, hBeyond⟩
    by_cases hFirst : 4096 ≤ address.toNat
    · exact ⟨0, hPos, by omega⟩
    · exact ⟨rows.val - 1, by omega, by omega⟩

/-- A strict machine refuses to draw exactly if a row lies behind memory. -/
theorem drawFault?_eq_none_iff (h : machine.config.strict = true) (rows : Fin 16) :
    machine.drawFault? rows = none ↔
      ¬ ∃ row < rows.val, 4096 ≤ (machine.registers.i + UInt16.ofNat row).toNat := by
  rw [exists_row_beyond_iff]
  unfold drawFault? Memory.tryGet
  by_cases hPos : 0 < rows.val
  · by_cases hEnd : (spriteEnd machine.registers.i rows).toNat < 4096
    · simp [h, hPos, hEnd]
    · simp [h, hPos, hEnd, Nat.le_of_not_lt hEnd]
  · simp [hPos]

theorem draw_lockstep (h : machine.config.strict = false) (x y : Register) (rows : Fin 16) :
    (machine.draw x y rows).Lockstep ((machine.withStrict true).draw x y rows) := by
  have hPermissive : machine.drawFault? rows = none := by simp [drawFault?, h]
  have hStrictness : (machine.withStrict true).config.strict = true := rfl
  have hFault := drawFault?_eq_none_iff hStrictness rows
  have hBreach : (machine.draw x y rows).breached = true ↔
      ∃ row < rows.val, 4096 ≤ (machine.registers.i + UInt16.ofNat row).toNat := by
    simp only [draw, hPermissive]
    exact Screen.breach_drawRows_iff ..
  refine ⟨?_, ?_, ?_, ?_⟩
  · simp only [draw, hPermissive]
    exact h
  · simp only [draw, hPermissive]
  · intro hNone
    have hStrict : (machine.withStrict true).drawFault? rows = none := by
      rw [hFault]
      intro hRow
      rw [hBreach.mpr hRow] at hNone
      contradiction
    simp only [draw, hPermissive, hStrict]
    rfl
  · intro hSome
    obtain ⟨fault, hStrict⟩ := Option.ne_none_iff_exists'.mp fun hNone =>
      hFault.mp hNone (hBreach.mp hSome)
    simp [draw, hStrict, Outcome.fail]

theorem skipWhen_lockstep (h : machine.config.strict = false) (condition : Bool) :
    (Outcome.done (machine.skipWhen condition)).Lockstep
      (.done ((machine.withStrict true).skipWhen condition)) := by
  cases condition with
  | false => exact .done h
  | true => exact .done h

theorem passBlock_lockstep (h : machine.config.strict = false) (x : Register) :
    (Outcome.done (machine.passBlock x)).Lockstep
      (.done ((machine.withStrict true).passBlock x)) := by
  have hKeep : (machine.withStrict true).config.keepIndex = machine.config.keepIndex := rfl
  rw [passBlock, passBlock, hKeep]
  split
  · exact .done h
  · exact .done h

theorem applyArithmetic_lockstep (h : machine.config.strict = false) (operation : Arithmetic)
    (x y : Register) :
    (Outcome.done (machine.applyArithmetic operation x y)).Lockstep
      (.done ((machine.withStrict true).applyArithmetic operation x y)) := by
  have hShift : (machine.withStrict true).config.shiftInPlace = machine.config.shiftInPlace := rfl
  rw [applyArithmetic, applyArithmetic, hShift, registers_withStrict]
  obtain ⟨result, flag⟩ := operation.apply machine.config.shiftInPlace (machine.registers.getV x)
    (machine.registers.getV y)
  cases flag with
  | none => exact .done h
  | some flag => exact .done h

/-- Every instruction keeps the two machines in lockstep. -/
theorem execute_lockstep (h : machine.config.strict = false) (held : UInt8 → Bool)
    (instruction : Instruction) :
    (machine.execute held instruction).Lockstep
      ((machine.withStrict true).execute held instruction) := by
  cases instruction with
  | clear => exact .done h
  | ret => exact ret_lockstep h
  | hostRoutine target => exact .done h
  | jump target => exact .done h
  | call target => exact call_lockstep h _
  | skipIf condition => exact skipWhen_lockstep h _
  | setByte x k => exact .done h
  | addByte x k => exact .done h
  | arithmetic operation x y => exact applyArithmetic_lockstep h operation x y
  | setIndex target => exact .done h
  | jumpOffset target => exact .done h
  | random x mask => exact .done h
  | draw x y rows => exact draw_lockstep h x y rows
  | readDelay x => exact .done h
  | awaitKey x => exact .done h
  | setDelay x => exact .done h
  | setSound x => exact .done h
  | addIndex x => exact .done h
  | glyph x => exact .done h
  | decimal x => exact writeBlock_lockstep h _ _
  | store x => exact (writeBlock_lockstep h _ _).andThen fun _ hNext => passBlock_lockstep hNext x
  | load x => exact (readBlock_lockstep h _ _).andThen fun _ hNext => passBlock_lockstep hNext x

end Machine

end Chip8
