import Chip8.Proofs.Lockstep.Instruction
import Chip8.Proofs.Machine.Aside

/-!
Runs of a permissive machine against those of the strict one. Up to the first breach of the
permissive run both go through the same states, take the same presses and give the same notices;
the strict run meets its first fault in the step of that breach.
-/

namespace Chip8

namespace Machine

variable {machine : Machine}

/-- A byte in range is read alike by both machines, and a byte behind memory is refused. -/
theorem readByte_cases (h : machine.config.strict = false) (address : UInt16) :
    (∃ byte, machine.readByte address = ⟨.ok byte, []⟩ ∧
        (machine.withStrict true).readByte address = ⟨.ok byte, []⟩) ∨
      ∃ fault, machine.readByte address = ⟨.ok 0, [.readBeyondMemory address]⟩ ∧
        (machine.withStrict true).readByte address = ⟨.error fault, []⟩ := by
  have hPermissive : machine.readByte address = Except.ok <$> machine.memory.get address := by
    simp [readByte, h]
  have hStrict : (machine.withStrict true).readByte address =
      pure (machine.memory.tryGet address) := rfl
  rw [hPermissive, hStrict]
  cases hGet : machine.memory.tryGet address with
  | ok byte => exact .inl ⟨byte, by simp only [Memory.get, hGet]; rfl, rfl⟩
  | error fault => exact .inr ⟨fault, by simp only [Memory.get, hGet]; rfl, rfl⟩

/-- A permissive machine always fetches a word. The strict one fetches the same word if there was
no breach, and none if there was one. -/
theorem fetch_cases (h : machine.config.strict = false) :
    ∃ word notices, machine.fetch = ⟨.ok word, notices⟩ ∧
      (notices.any Notice.isBreach = false ∧
          (machine.withStrict true).fetch = ⟨.ok word, notices⟩ ∨
        notices.any Notice.isBreach = true ∧
          ∃ fault, (machine.withStrict true).fetch = ⟨.error fault, []⟩) := by
  have hRegisters : (machine.withStrict true).registers = machine.registers := rfl
  unfold fetch
  rw [hRegisters]
  -- The strict machine stops at the first byte that it refuses; the permissive one reads both.
  rcases readByte_cases h machine.registers.pc with ⟨high, hHigh, hHigh'⟩ | ⟨fault, hHigh, hHigh'⟩
  · rcases readByte_cases h (machine.registers.pc + 1) with
      ⟨low, hLow, hLow'⟩ | ⟨fault, hLow, hLow'⟩
    · rw [hHigh, hLow, hHigh', hLow']
      exact ⟨_, _, rfl, .inl ⟨rfl, rfl⟩⟩
    · rw [hHigh, hLow, hHigh', hLow']
      exact ⟨_, _, rfl, .inr ⟨rfl, fault, rfl⟩⟩
  · rcases readByte_cases h (machine.registers.pc + 1) with ⟨low, hLow, -⟩ | ⟨-, hLow, -⟩
    · rw [hHigh, hLow, hHigh']
      exact ⟨_, _, rfl, .inr ⟨rfl, fault, rfl⟩⟩
    · rw [hHigh, hLow, hHigh']
      exact ⟨_, _, rfl, .inr ⟨rfl, fault, rfl⟩⟩

theorem executeWord_lockstep (h : machine.config.strict = false) (held : UInt8 → Bool)
    (address : UInt16) (word : Word) :
    (machine.executeWord held address word).Lockstep
      ((machine.withStrict true).executeWord held address word) := by
  unfold executeWord
  cases word.decode with
  | some instruction => exact (execute_lockstep h held instruction).after rfl
  | none =>
      have hNotices : [Notice.unknownWord address word].any Notice.isBreach = false := rfl
      exact (Outcome.Lockstep.done h).after hNotices

theorem cycle_lockstep (h : machine.config.strict = false) (held : UInt8 → Bool) :
    (machine.cycle held).Lockstep ((machine.withStrict true).cycle held) := by
  obtain ⟨word, notices, hFetch, hStrict⟩ := fetch_cases h
  have hFetched : (machine.fetched word).config.strict = false := h
  have hExecute := executeWord_lockstep hFetched held machine.registers.pc word
  have hCycle : machine.cycle held =
      ((machine.fetched word).executeWord held machine.registers.pc word).after notices := by
    simp only [cycle, hFetch]
  rw [hCycle]
  rcases hStrict with ⟨hBreach, hStrict⟩ | ⟨hBreach, fault, hStrict⟩
  · have hCycle' : (machine.withStrict true).cycle held =
        (((machine.fetched word).withStrict true).executeWord held machine.registers.pc
          word).after notices := by
      simp only [cycle, hStrict]
      rfl
    rw [hCycle']
    exact hExecute.after hBreach
  · refine .of_breach hExecute.stays_permissive hExecute.no_fault ?_ ?_
    · simp [hBreach]
    · simp [cycle, hStrict]

end Machine

/-- How a step of a permissive machine goes with that of the strict one. Without a breach the keys
are left the same as well. -/
structure Stepped.Lockstep {κ : Type} (permissive strict : Stepped κ) : Prop where
  outcome : permissive.outcome.Lockstep strict.outcome
  keys : permissive.outcome.breached = false → strict.keys = permissive.keys

namespace Machine

variable {κ : Type} [KeyInput κ] {machine : Machine}

theorem breached_beginWait (outcome : Outcome) (keys : κ) :
    (beginWait outcome keys).outcome.breached = outcome.breached := by
  unfold beginWait
  split
  · rw [Outcome.breached, List.any_append]
    exact Bool.or_false _
  · rfl

theorem beginWait_lockstep {permissive strict : Outcome} (h : permissive.Lockstep strict)
    (keys : κ) : (beginWait permissive keys).Lockstep (beginWait strict keys) := by
  have hSame (hBreach : (beginWait permissive keys).outcome.breached = false) :
      beginWait strict keys = ⟨(beginWait permissive keys).outcome.withStrict true,
        (beginWait permissive keys).keys⟩ := by
    rw [breached_beginWait] at hBreach
    rw [h.same hBreach]
    exact beginWait_mapMachine (·.withStrict true) permissive rfl keys
  refine ⟨⟨?_, ?_, ?_, ?_⟩, ?_⟩
  · rw [machine_beginWait]
    exact h.stays_permissive
  · rw [fault_beginWait]
    exact h.no_fault
  · intro hBreach
    rw [hSame hBreach]
  · intro hBreach
    rw [breached_beginWait] at hBreach
    rw [fault_beginWait]
    exact h.refused hBreach
  · intro hBreach
    rw [hSame hBreach]

/-- Every step keeps the two machines in lockstep. -/
theorem step_lockstep (h : machine.config.strict = false) (keys : κ) :
    (machine.step keys).Lockstep ((machine.withStrict true).step keys) := by
  have hAwaiting : (machine.withStrict true).awaiting = machine.awaiting := rfl
  unfold step
  rw [hAwaiting]
  cases machine.awaiting with
  | none => exact beginWait_lockstep (cycle_lockstep h _) keys
  | some x =>
      dsimp only
      unfold pollKey
      rcases KeyInput.poll keys with ⟨code | code, rest⟩
      · exact ⟨.done h, fun _ => rfl⟩
      · have hNotices : [Notice.keyStored code x].any Notice.isBreach = false := rfl
        refine ⟨⟨h, rfl, fun _ => rfl, fun hBreach => ?_⟩, fun _ => rfl⟩
        exact absurd (hNotices.symm.trans hBreach) Bool.false_ne_true

/-- A machine and the keys right before step `n` of a run, counted from zero. Before every step a
host may touch the keys. A step that ends in a fault does not end the run. -/
def before (machine : Machine) (keys : κ) (touch : Nat → κ → κ) : Nat → Machine × κ
  | 0 => (machine, touch 0 keys)
  | n + 1 =>
    let last := (machine.before keys touch n).1.step (machine.before keys touch n).2
    (last.outcome.machine, touch (n + 1) last.keys)

/-- Step `n` of a run, counted from zero. -/
def stepAt (machine : Machine) (keys : κ) (touch : Nat → κ → κ) (n : Nat) : Stepped κ :=
  (machine.before keys touch n).1.step (machine.before keys touch n).2

variable (machine : Machine) (keys : κ) (touch : Nat → κ → κ)

theorem before_succ (n : Nat) :
    machine.before keys touch (n + 1) =
      ((machine.stepAt keys touch n).outcome.machine,
        touch (n + 1) (machine.stepAt keys touch n).keys) := rfl

theorem strict_before (n : Nat) :
    ((machine.withStrict false).before keys touch n).1.config.strict = false := by
  induction n with
  | zero => rfl
  | succ n ih => exact (step_lockstep ih _).outcome.stays_permissive

/-- As long as there is no breach the strict machine goes through the same states. -/
theorem before_withStrict_true (n : Nat)
    (hBreach : ∀ k < n, ((machine.withStrict false).stepAt keys touch k).outcome.breached = false) :
    (machine.withStrict true).before keys touch n =
      (((machine.withStrict false).before keys touch n).1.withStrict true,
        ((machine.withStrict false).before keys touch n).2) := by
  induction n with
  | zero => rfl
  | succ n ih =>
      have hState := ih fun k hk => hBreach k (by omega)
      have hStep := step_lockstep (strict_before machine keys touch n)
        ((machine.withStrict false).before keys touch n).2
      have hLast := hBreach n (by omega)
      rw [before_succ, before_succ, stepAt, hState]
      rw [hStep.outcome.same hLast, hStep.keys hLast]
      rfl

/-- In a step before which there was no breach, the strict machine meets a fault exactly if the
permissive one breaches. -/
theorem fault_stepAt_ne_none_iff (n : Nat)
    (hBreach : ∀ k < n, ((machine.withStrict false).stepAt keys touch k).outcome.breached = false) :
    ((machine.withStrict true).stepAt keys touch n).outcome.fault ≠ none ↔
      ((machine.withStrict false).stepAt keys touch n).outcome.breached = true := by
  have hStep := step_lockstep (strict_before machine keys touch n)
    ((machine.withStrict false).before keys touch n).2
  rw [stepAt, before_withStrict_true machine keys touch n hBreach]
  constructor
  · intro hFault
    cases hLast : ((machine.withStrict false).stepAt keys touch n).outcome.breached with
    | true => rfl
    | false =>
        have hNone := hStep.outcome.no_fault
        rw [hStep.outcome.same hLast] at hFault
        contradiction
  · exact hStep.outcome.refused

/-- Up to any step, one of the strict machine's steps has met a fault exactly if one of the
permissive machine's steps has breached. -/
theorem no_fault_before_iff (n : Nat) :
    (∀ k < n, ((machine.withStrict true).stepAt keys touch k).outcome.fault = none) ↔
      ∀ k < n, ((machine.withStrict false).stepAt keys touch k).outcome.breached = false := by
  induction n with
  | zero => simp
  | succ n ih =>
      rw [Nat.forall_lt_succ_right, Nat.forall_lt_succ_right, ih]
      refine and_congr_right fun hBreach => ?_
      rw [← Bool.not_eq_true, ← fault_stepAt_ne_none_iff machine keys touch n hBreach,
        Classical.not_not]

/-- A permissive run never meets a fault. Up to its first breach the strict run from the same
state meets none either and goes through the same states, but for the setting itself; and the first
fault of the strict run occurs in exactly the step of that breach. -/
theorem strict_run_agrees_until_breach :
    (∀ n, ((machine.withStrict false).stepAt keys touch n).outcome.fault = none) ∧
    (∀ n, (∀ k < n,
        ((machine.withStrict false).stepAt keys touch k).outcome.breached = false) →
      (∀ k < n, ((machine.withStrict true).stepAt keys touch k).outcome.fault = none) ∧
      (machine.withStrict true).before keys touch n =
        (((machine.withStrict false).before keys touch n).1.withStrict true,
          ((machine.withStrict false).before keys touch n).2)) ∧
    ∀ n, ((∀ k < n, ((machine.withStrict true).stepAt keys touch k).outcome.fault = none) ∧
        ((machine.withStrict true).stepAt keys touch n).outcome.fault ≠ none) ↔
      (∀ k < n, ((machine.withStrict false).stepAt keys touch k).outcome.breached = false) ∧
        ((machine.withStrict false).stepAt keys touch n).outcome.breached = true := by
  refine ⟨?_, ?_, ?_⟩
  · intro n
    exact (step_lockstep (strict_before machine keys touch n) _).outcome.no_fault
  · intro n hBreach
    exact ⟨(no_fault_before_iff machine keys touch n).mpr hBreach,
      before_withStrict_true machine keys touch n hBreach⟩
  · intro n
    rw [no_fault_before_iff]
    exact and_congr_right fun hBreach => fault_stepAt_ne_none_iff machine keys touch n hBreach

end Machine

end Chip8
