import Chip8.Machine.Step
import Chip8.Proofs.Instruction.Encoding

/-!
What a step comes to. It executes the word that lies ahead, or it executes none: a machine that
waits for a key only asks for a press, and one that cannot fetch stays as it is.
-/

namespace Chip8

theorem Word.decode_eq_some_ret_iff (word : Word) : word.decode = some .ret ↔ word = 0x00EE :=
  decode_eq_some_iff

theorem Word.decode_of_family_two {word : Word} (h : word.family = 2) :
    word.decode = some (.call word.target) :=
  decode_of_encodes ⟨h, rfl⟩

namespace Machine

variable {κ : Type} [KeyInput κ] {machine : Machine} {word : Word}

/-- The word that the next step executes. -/
def upcoming? (machine : Machine) : Option Word :=
  if machine.awaiting.isSome then none else machine.fetch.value.toOption

theorem upcoming?_eq_some_iff :
    machine.upcoming? = some word ↔ machine.awaiting = none ∧ machine.fetch.value = .ok word := by
  unfold upcoming?
  cases machine.awaiting with
  | some x => simp
  | none =>
      cases machine.fetch.value with
      | ok fetched => simp [Except.toOption]
      | error fault => simp [Except.toOption]

/-- A machine that executes no word waits for a key or cannot fetch. -/
theorem cases_of_upcoming?_eq_none (h : machine.upcoming? = none) :
    (∃ x, machine.awaiting = some x) ∨
      machine.awaiting = none ∧ ∃ fault, machine.fetch.value = .error fault := by
  cases hAwaiting : machine.awaiting with
  | some x => exact .inl ⟨x, rfl⟩
  | none =>
      cases hFetch : machine.fetch.value with
      | error fault => exact .inr ⟨rfl, fault, rfl⟩
      | ok word =>
          rw [upcoming?_eq_some_iff.mpr ⟨hAwaiting, hFetch⟩] at h
          cases h

theorem machine_executeWord (held : UInt8 → Bool) (address : UInt16) :
    (machine.executeWord held address word).machine =
      word.decode.elim machine fun instruction => (machine.execute held instruction).machine := by
  unfold executeWord
  cases word.decode <;> rfl

theorem machine_beginWait (outcome : Outcome) (keys : κ) :
    (beginWait outcome keys).outcome.machine = outcome.machine := by
  unfold beginWait
  split <;> rfl

theorem fault_beginWait (outcome : Outcome) (keys : κ) :
    (beginWait outcome keys).outcome.fault = outcome.fault := by
  unfold beginWait
  split <;> rfl

theorem step_of_awaiting {x : Register} (h : machine.awaiting = some x) (keys : κ) :
    machine.step keys = machine.pollKey x keys := by
  simp only [step, h]

/-- Where no word can be fetched, a step does nothing but report the fault. -/
theorem step_of_fetch_eq_error {fault : Fault} (hAwaiting : machine.awaiting = none)
    (hFetch : machine.fetch.value = .error fault) (keys : κ) :
    machine.step keys = ⟨⟨machine, machine.fetch.notices, some fault⟩, keys⟩ := by
  simp only [step, hAwaiting, cycle, hFetch, beginWait]

theorem step_of_upcoming? (h : machine.upcoming? = some word) (keys : κ) :
    machine.step keys =
      beginWait (((machine.fetched word).executeWord (KeyInput.isHeld keys) machine.registers.pc
        word).after machine.fetch.notices) keys := by
  obtain ⟨hAwaiting, hFetch⟩ := upcoming?_eq_some_iff.mp h
  simp only [step, hAwaiting, cycle, hFetch]

theorem machine_step_of_upcoming? (h : machine.upcoming? = some word) (keys : κ) :
    (machine.step keys).outcome.machine =
      word.decode.elim (machine.fetched word) fun instruction =>
        ((machine.fetched word).execute (KeyInput.isHeld keys) instruction).machine := by
  rw [step_of_upcoming? h, machine_beginWait, ← machine_executeWord]
  rfl

theorem machine_step_of_encodes (h : machine.upcoming? = some word) {instruction : Instruction}
    (hEncodes : word.Encodes instruction) (keys : κ) :
    (machine.step keys).outcome.machine =
      ((machine.fetched word).execute (KeyInput.isHeld keys) instruction).machine := by
  rw [machine_step_of_upcoming? h, Word.decode_of_encodes hEncodes]
  rfl

theorem fault_step_of_encodes (h : machine.upcoming? = some word) {instruction : Instruction}
    (hEncodes : word.Encodes instruction) (keys : κ) :
    (machine.step keys).outcome.fault =
      ((machine.fetched word).execute (KeyInput.isHeld keys) instruction).fault := by
  rw [step_of_upcoming? h, fault_beginWait, executeWord, Word.decode_of_encodes hEncodes]
  rfl

/-- A step that executes no word changes no more than the register that a key press goes into, and
the wait for it. -/
theorem machine_step_of_upcoming?_eq_none (h : machine.upcoming? = none) (keys : κ) :
    ∃ v awaiting, (machine.step keys).outcome.machine =
      { machine with registers.v := v, awaiting := awaiting } := by
  rcases cases_of_upcoming?_eq_none h with ⟨x, hAwaiting⟩ | ⟨hAwaiting, fault, hFetch⟩
  · rw [step_of_awaiting hAwaiting, pollKey]
    rcases KeyInput.poll keys with ⟨code | code, rest⟩
    · exact ⟨machine.registers.v, machine.awaiting, rfl⟩
    · exact ⟨_, none, rfl⟩
  · rw [step_of_fetch_eq_error hAwaiting hFetch]
    exact ⟨machine.registers.v, machine.awaiting, rfl⟩

end Machine

end Chip8
