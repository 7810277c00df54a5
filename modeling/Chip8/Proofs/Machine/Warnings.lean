import Chip8.Proofs.Machine.Step

/-!
Warnings. While a machine fetches a word and does what it says, it only remarks on departures from
what the program asked for. That a word is passed over is remarked on where a word encodes no
instruction, and nowhere else.
-/

namespace Chip8

/-- Whether notices remark on departures from what a program asked for, and on nothing else. -/
def AreWarnings (notices : List Notice) : Prop :=
  ∀ notice ∈ notices, notice.level = .warn

namespace AreWarnings

theorem nil : AreWarnings [] := List.forall_mem_nil _

theorem single {notice : Notice} (h : notice.level = .warn) : AreWarnings [notice] :=
  List.forall_mem_singleton.mpr h

theorem append {notices later : List Notice} (h : AreWarnings notices)
    (hLater : AreWarnings later) : AreWarnings (notices ++ later) :=
  List.forall_mem_append.mpr ⟨h, hLater⟩

theorem unknownWord_not_mem {notices : List Notice} (h : AreWarnings notices) (address : UInt16)
    (word : Word) : .unknownWord address word ∉ notices := by
  intro hMem
  cases h _ hMem

end AreWarnings

namespace Memory

theorem warns_get (memory : Memory) (address : UInt16) :
    AreWarnings (memory.get address).notices := by
  unfold get
  split
  · exact .nil
  · exact .single rfl

theorem warns_set (memory : Memory) (address : UInt16) (value : UInt8) :
    AreWarnings (memory.set address value).notices := by
  unfold set
  dsimp only
  split
  · exact .nil
  · exact .single rfl

end Memory

namespace Drawn

theorem warns_flip (drawn : Drawn) (x y : Int) : AreWarnings (drawn.flip x y).notices := by
  unfold flip
  split
  · exact .nil
  · simp only [Screen.clip, Logged.notices_bind, Logged.notices_pure, List.append_nil]
    split
    · exact .nil
    · exact .single rfl

theorem warns_flipAll (drawn : Drawn) (points : List (Int × Int)) :
    AreWarnings (drawn.flipAll points).notices := by
  induction points generalizing drawn with
  | nil => exact .nil
  | cons point rest ih => exact (drawn.warns_flip point.1 point.2).append (ih _)

end Drawn

theorem Screen.warns_drawRows (memory : Memory) (x : Int) (rows : Nat) (y : Int) (address : UInt16)
    (drawn : Drawn) : AreWarnings (drawRows memory x rows y address drawn).notices := by
  induction rows generalizing y address drawn with
  | zero => exact .nil
  | succ rows ih =>
      exact (memory.warns_get address).append ((drawn.warns_flipAll _).append (ih _ _ _))

/-- Two actions only warn if each of them does. -/
theorem Outcome.warns_andThen {outcome : Outcome} {next : Machine → Outcome}
    (h : AreWarnings outcome.notices) (hNext : ∀ machine, AreWarnings (next machine).notices) :
    AreWarnings (outcome.andThen next).notices := by
  unfold andThen
  split
  · exact h
  · exact h.append (hNext _)

namespace Machine

variable (machine : Machine)

theorem warns_readByte (address : UInt16) : AreWarnings (machine.readByte address).notices := by
  unfold readByte
  split
  · exact .nil
  · rw [Logged.notices_map]
    exact machine.memory.warns_get address

theorem warns_fetch : AreWarnings machine.fetch.notices := by
  refine (machine.warns_readByte _).append ?_
  dsimp only
  split
  · exact .nil
  · exact (machine.warns_readByte _).append .nil

theorem warns_writeByte (address : UInt16) (value : UInt8) :
    AreWarnings (machine.writeByte address value).notices := by
  unfold writeByte
  split
  · dsimp only
    split
    · exact .nil
    · exact .nil
  · exact machine.memory.warns_set address value

theorem warns_writeBlock (address : UInt16) (bytes : List UInt8) :
    AreWarnings (machine.writeBlock address bytes).notices := by
  induction bytes generalizing machine address with
  | nil => exact .nil
  | cons byte rest ih =>
      exact Outcome.warns_andThen (machine.warns_writeByte address byte) fun next => ih next _

theorem warns_loadV (x : Register) (address : UInt16) :
    AreWarnings (machine.loadV x address).notices := by
  unfold loadV
  dsimp only
  split
  · exact machine.warns_readByte address
  · exact machine.warns_readByte address

theorem warns_readBlock (address : UInt16) (registers : List Register) :
    AreWarnings (machine.readBlock address registers).notices := by
  induction registers generalizing machine address with
  | nil => exact .nil
  | cons x rest ih =>
      exact Outcome.warns_andThen (machine.warns_loadV x address) fun next => ih next _

theorem warns_call (address : UInt16) : AreWarnings (machine.call address).notices := by
  unfold call
  dsimp only
  split
  · exact .nil
  · split
    · exact .nil
    · exact .single rfl

theorem warns_ret : AreWarnings machine.ret.notices := by
  unfold ret
  dsimp only
  split
  · exact .nil
  · split
    · exact .nil
    · exact .single rfl

theorem warns_draw (x y : Register) (rows : Fin 16) :
    AreWarnings (machine.draw x y rows).notices := by
  unfold draw
  split
  · exact .nil
  · exact Screen.warns_drawRows _ _ _ _ _ _

/-- An instruction only warns. -/
theorem warns_execute (held : UInt8 → Bool) (instruction : Instruction) :
    AreWarnings (machine.execute held instruction).notices := by
  cases instruction with
  | ret => exact machine.warns_ret
  | call target => exact machine.warns_call _
  | draw x y rows => exact machine.warns_draw x y rows
  | decimal x => exact machine.warns_writeBlock _ _
  | store x => exact Outcome.warns_andThen (machine.warns_writeBlock _ _) fun _ => .nil
  | load x => exact Outcome.warns_andThen (machine.warns_readBlock _ _) fun _ => .nil
  | _ => exact .nil

variable {machine} {κ : Type} [KeyInput κ] {word : Word}

/-- A word that encodes no instruction is passed over, with a remark. -/
theorem step_of_decode_eq_none (h : machine.upcoming? = some word) (hDecode : word.decode = none)
    (keys : κ) :
    machine.step keys =
      ⟨⟨machine.fetched word,
        machine.fetch.notices ++ [.unknownWord machine.registers.pc word], none⟩, keys⟩ := by
  have hAwaiting : (machine.fetched word).awaiting = none := (upcoming?_eq_some_iff.mp h).1
  rw [step_of_upcoming? h]
  simp only [executeWord, hDecode, Outcome.after, beginWait, hAwaiting]

theorem notices_beginWait (outcome : Outcome) (keys : κ) {notice : Notice}
    (h : notice ∈ (beginWait outcome keys).outcome.notices) :
    notice ∈ outcome.notices ∨ ∃ x, notice = .awaitingKey x := by
  unfold beginWait at h
  split at h
  · next x _ _ =>
      rcases List.mem_append.mp h with hBefore | hLast
      · exact .inl hBefore
      · exact .inr ⟨x, List.mem_singleton.mp hLast⟩
  · exact .inl h

/-- A step remarks that it passes over the word at its address if that encodes no instruction, and
never otherwise. -/
theorem unknownWord_mem_step_iff (h : machine.upcoming? = some word) (keys : κ)
    (address : UInt16) (other : Word) :
    .unknownWord address other ∈ (machine.step keys).outcome.notices ↔
      word.decode = none ∧ address = machine.registers.pc ∧ other = word := by
  have hFetch := machine.warns_fetch.unknownWord_not_mem address other
  cases hDecode : word.decode with
  | none =>
      rw [step_of_decode_eq_none h hDecode]
      simp [hFetch]
  | some instruction =>
      refine iff_of_false (fun hMem => ?_) (fun hNone => Option.some_ne_none _ hNone.1)
      rw [step_of_upcoming? h, executeWord, hDecode] at hMem
      -- Apart from warnings a step only tells what it executes and that it begins to wait.
      rcases notices_beginWait _ _ hMem with hMem | ⟨x, hSame⟩
      · rcases List.mem_append.mp hMem with hBefore | hMem
        · exact hFetch hBefore
        · rcases List.mem_cons.mp hMem with hSame | hExecuted
          · cases hSame
          · exact (warns_execute _ _ instruction).unknownWord_not_mem address other hExecuted
      · cases hSame

end Machine

end Chip8
