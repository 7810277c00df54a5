import Chip8.Proofs.Circumstances.Instruction
import Chip8.Proofs.Machine.Successor

/-!
Steps under other circumstances. A step hands the circumstances of a machine on, whatever they are,
unless its instruction tells them from others; what it changes of them is the timer that it sets.
-/

namespace Chip8

/-- The same end of a step, in a machine under other circumstances. -/
def Stepped.under {κ : Type} (stepped : Stepped κ) (c : Circumstances) : Stepped κ :=
  { stepped with outcome := stepped.outcome.under c }

/-- Circumstances after a step that is made under them. -/
def Circumstances.afterStep (c : Circumstances) (machine : Machine) : Circumstances :=
  (machine.upcoming?.bind Word.decode).elim c (c.after machine)

theorem Circumstances.settings_afterStep (c : Circumstances) (machine : Machine) :
    (c.afterStep machine).config = c.config ∧ (c.afterStep machine).wrap = c.wrap := by
  unfold afterStep
  cases machine.upcoming?.bind Word.decode with
  | none => exact ⟨rfl, rfl⟩
  | some instruction => cases instruction <;> exact ⟨rfl, rfl⟩

namespace Machine

/-- The circumstances that a machine is under. -/
def circumstances (machine : Machine) : Circumstances where
  config := machine.config
  wrap := machine.screen.wrap
  delay := machine.registers.delay
  sound := machine.registers.sound

theorem under_circumstances (machine : Machine) : machine.under machine.circumstances = machine :=
  rfl

theorem circumstances_under {machine : Machine} {c : Circumstances}
    (h : c.config.strict = machine.config.strict) : (machine.under c).circumstances = c := by
  have hConfig : { c.config with strict := machine.config.strict } = c.config := by rw [← h]
  exact congrArg (fun config => { c with config := config }) hConfig

/-- Nothing but the settings of three behaviours and the delay timer is ever looked at. -/
theorem overlooks_of_eq {machine : Machine} {c : Circumstances} {instruction : Instruction}
    (hShift : c.config.shiftInPlace = machine.config.shiftInPlace)
    (hKeep : c.config.keepIndex = machine.config.keepIndex) (hWrap : c.wrap = machine.screen.wrap)
    (hDelay : ∀ x, instruction = .readDelay x → c.delay = machine.registers.delay) :
    machine.Overlooks c instruction := by
  cases instruction with
  | arithmetic operation x y => exact fun _ => .inl hShift
  | draw x y rows => exact .inl hWrap
  | readDelay x => exact hDelay x rfl
  | store x => exact hKeep
  | load x => exact hKeep
  | _ => trivial

/-- No instruction tells the circumstances of a machine from themselves. -/
theorem overlooks_circumstances (machine : Machine) (instruction : Instruction) :
    machine.Overlooks machine.circumstances instruction :=
  overlooks_of_eq rfl rfl rfl fun _ _ => rfl

variable {κ : Type} [KeyInput κ] {machine : Machine} {c : Circumstances}

/-- A step that does not tell circumstances apart does the same under each of them. -/
theorem step_under (h : ∀ word instruction, machine.upcoming? = some word →
      word.decode = some instruction → machine.Overlooks c instruction) (keys : κ) :
    (machine.under c).step keys = (machine.step keys).under (c.afterStep machine) := by
  refine (aside_under c).step (aside_under (c.afterStep machine)) (fun hNone => ?_)
    (fun word instruction hUpcoming hDecode held => ?_) keys
  · rw [Circumstances.afterStep, hNone]
    rfl
  · have hOverlooks : (machine.fetched word).Overlooks c instruction :=
      h word instruction hUpcoming hDecode
    have hAfter : c.afterStep machine = c.after (machine.fetched word) instruction := by
      rw [Circumstances.afterStep, hUpcoming, Option.bind_some, hDecode]
      rfl
    rw [hAfter]
    exact execute_under hOverlooks

/-- No step changes the settings. -/
theorem config_step (machine : Machine) (keys : κ) :
    (machine.step keys).outcome.machine.config = machine.config := by
  cases hUpcoming : machine.upcoming? with
  | some word => exact (footprint_step hUpcoming keys).1.config
  | none =>
      obtain ⟨v, awaiting, hFinal⟩ := machine_step_of_upcoming?_eq_none hUpcoming keys
      rw [hFinal]

/-- What a step makes of the circumstances of a machine is what it makes of any. -/
theorem circumstances_step (machine : Machine) (keys : κ) :
    (machine.step keys).outcome.machine.circumstances =
      machine.circumstances.afterStep machine := by
  have hStep := step_under (c := machine.circumstances)
    (fun _ instruction _ _ => machine.overlooks_circumstances instruction) keys
  rw [under_circumstances] at hStep
  have hStrict : (machine.circumstances.afterStep machine).config.strict =
      (machine.step keys).outcome.machine.config.strict := by
    rw [(machine.circumstances.settings_afterStep machine).1, config_step]
    rfl
  rw [hStep]
  exact circumstances_under hStrict

theorem wrap_step (machine : Machine) (keys : κ) :
    (machine.step keys).outcome.machine.screen.wrap = machine.screen.wrap :=
  (congrArg Circumstances.wrap (machine.circumstances_step keys)).trans
    (machine.circumstances.settings_afterStep machine).2

end Machine

end Chip8
