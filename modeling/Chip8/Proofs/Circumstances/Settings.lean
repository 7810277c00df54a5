import Chip8.Keys.Keypad
import Chip8.Proofs.Circumstances.Step
import Chip8.Proofs.Lockstep.Run

/-!
Settings against one another. Two machines that start alike but for their settings go through the
same states, and say the same about them, for as long as no word is executed over which the
settings are in dispute. How fast they are meant to run is never in dispute.
-/

namespace Chip8

/-- The same machine with other settings, which its screen follows. -/
def Machine.withConfig (machine : Machine) (config : Config) : Machine :=
  { machine with config := config, screen := machine.screen.withWrap config.wrap }

/-- The same outcome, ending in a machine with other settings. -/
def Outcome.withConfig (outcome : Outcome) (config : Config) : Outcome :=
  { outcome with machine := outcome.machine.withConfig config }

/-- Whether two settings let a machine execute a word in different ways. -/
def Machine.Disputes (machine : Machine) (word : Word) (first second : Config) : Prop :=
  first.shiftInPlace ≠ second.shiftInPlace ∧ word.family = 0x8 ∧
      (word.last = 0x6 ∨ word.last = 0xE) ∧
      machine.registers.getV word.x ≠ machine.registers.getV word.y ∨
    first.keepIndex ≠ second.keepIndex ∧ word.family = 0xF ∧
      (word.low = 0x55 ∨ word.low = 0x65) ∨
    first.wrap ≠ second.wrap ∧ word.family = 0xD ∧
      ¬ SpriteOnGrid machine.memory (machine.registers.getV word.x).toNat
        (machine.registers.getV word.y).toNat machine.registers.i word.last.val

instance (machine : Machine) (word : Word) (first second : Config) :
    Decidable (machine.Disputes word first second) :=
  inferInstanceAs (Decidable (_ ∨ _))

theorem Arithmetic.digit_of_isShift {operation : Arithmetic} (h : operation.isShift = true) :
    operation.digit = 0x6 ∨ operation.digit = 0xE := by
  revert h
  cases operation <;> decide

namespace Machine

variable {machine : Machine} {word : Word} {first second : Config}

/-- The circumstances that a machine is under once it has other settings. -/
def circumstancesWith (machine : Machine) (config : Config) : Circumstances :=
  { machine.circumstances with config := config, wrap := config.wrap }

theorem withConfig_eq_under {config : Config} (h : config.strict = machine.config.strict) :
    machine.withConfig config = machine.under (machine.circumstancesWith config) := by
  have hConfig : { config with strict := machine.config.strict } = config := by rw [← h]
  exact congrArg (fun config' => { machine.withConfig config with config := config' }) hConfig.symm

/-- An instruction over which the settings are not in dispute does not tell them apart. -/
theorem overlooks_of_not_disputes (hConfig : machine.config = first)
    (hWrap : machine.screen.wrap = first.wrap) (h : ¬ machine.Disputes word first second)
    {instruction : Instruction} (hEncodes : word.Encodes instruction) :
    machine.Overlooks (machine.circumstancesWith second) instruction := by
  obtain ⟨hShift, hKeep, hDraw⟩ : _ ∧ _ ∧ _ := by
    rwa [Disputes, not_or, not_or] at h
  subst hConfig
  cases instruction with
  | arithmetic operation x y =>
      obtain ⟨hFamily, hLast, rfl, rfl⟩ := hEncodes
      intro hOperation
      have hDigit := Arithmetic.digit_of_isShift hOperation
      rw [← hLast] at hDigit
      refine Decidable.byContradiction fun hDiffer => ?_
      obtain ⟨hSetting, hValues⟩ := not_or.mp hDiffer
      exact hShift ⟨Ne.symm hSetting, hFamily, hDigit, hValues⟩
  | draw x y rows =>
      obtain ⟨hFamily, rfl, rfl, rfl⟩ := hEncodes
      refine Classical.byContradiction fun hDiffer => ?_
      obtain ⟨hSetting, hEdge⟩ := not_or.mp hDiffer
      exact hDraw ⟨fun hSame => hSetting (hSame.symm.trans hWrap.symm), hFamily, hEdge⟩
  | store x =>
      obtain ⟨hFamily, hLow, rfl⟩ := hEncodes
      have hSetting : second.keepIndex = machine.config.keepIndex :=
        Decidable.byContradiction fun hDiffer => hKeep ⟨Ne.symm hDiffer, hFamily, .inl hLow⟩
      exact hSetting
  | load x =>
      obtain ⟨hFamily, hLow, rfl⟩ := hEncodes
      have hSetting : second.keepIndex = machine.config.keepIndex :=
        Decidable.byContradiction fun hDiffer => hKeep ⟨Ne.symm hDiffer, hFamily, .inr hLow⟩
      exact hSetting
  | readDelay x => exact rfl
  | _ => trivial

variable {κ : Type} [KeyInput κ]

/-- What a step makes of the circumstances under other settings are those of its end under the
other settings. -/
theorem circumstancesWith_step (machine : Machine) (config : Config) (keys : κ) :
    (machine.circumstancesWith config).afterStep machine =
      (machine.step keys).outcome.machine.circumstancesWith config := by
  change _ = { (machine.step keys).outcome.machine.circumstances with
    config := config, wrap := config.wrap }
  rw [circumstances_step, Circumstances.afterStep, Circumstances.afterStep]
  cases machine.upcoming?.bind Word.decode with
  | none => rfl
  | some instruction => cases instruction <;> rfl

/-- A step over whose word the settings are not in dispute is the same with both of them. -/
theorem step_withConfig (hConfig : machine.config = first)
    (hWrap : machine.screen.wrap = first.wrap) (hStrict : first.strict = second.strict)
    (h : ∀ word, machine.upcoming? = some word → ¬ machine.Disputes word first second) (keys : κ) :
    ((machine.withConfig second).step keys).outcome =
        (machine.step keys).outcome.withConfig second ∧
      ((machine.withConfig second).step keys).keys = (machine.step keys).keys := by
  have hMachine : second.strict = machine.config.strict := by rw [hConfig, hStrict]
  have hFinal : second.strict = (machine.step keys).outcome.machine.config.strict := by
    rw [config_step, hMachine]
  have hOverlooks (word : Word) (instruction : Instruction)
      (hUpcoming : machine.upcoming? = some word) (hDecode : word.decode = some instruction) :
      machine.Overlooks (machine.circumstancesWith second) instruction :=
    overlooks_of_not_disputes hConfig hWrap (h word hUpcoming) (Word.encodes_of_decode hDecode)
  have hStep := step_under hOverlooks keys
  rw [circumstancesWith_step machine second keys] at hStep
  rw [withConfig_eq_under hMachine, hStep, Outcome.withConfig, withConfig_eq_under hFinal]
  exact ⟨rfl, rfl⟩

variable (machine first second) (keys : κ) (touch : Nat → κ → κ)

/-- Settings never change in a run. -/
theorem config_before (config : Config) (n : Nat) :
    ((machine.withConfig config).before keys touch n).1.config = config ∧
      ((machine.withConfig config).before keys touch n).1.screen.wrap = config.wrap := by
  induction n with
  | zero => exact ⟨rfl, rfl⟩
  | succ n ih =>
      rw [before_succ, stepAt, config_step, wrap_step]
      exact ih

/-- As long as the settings are not in dispute both runs go through the same states. -/
theorem before_withConfig (hStrict : first.strict = second.strict) (n : Nat)
    (h : ∀ k < n, ∀ word, ((machine.withConfig first).before keys touch k).1.upcoming? = some word →
      ¬ ((machine.withConfig first).before keys touch k).1.Disputes word first second) :
    (machine.withConfig second).before keys touch n =
      (((machine.withConfig first).before keys touch n).1.withConfig second,
        ((machine.withConfig first).before keys touch n).2) := by
  induction n with
  | zero => rfl
  | succ n ih =>
      have hState := ih fun k hk => h k (by omega)
      obtain ⟨hConfig, hWrap⟩ := config_before machine keys touch first n
      obtain ⟨hOutcome, hKeys⟩ := step_withConfig hConfig hWrap hStrict (h n (by omega))
        ((machine.withConfig first).before keys touch n).2
      rw [before_succ, before_succ, stepAt, hState, hOutcome, hKeys]
      rfl

/-- Two runs of a machine with settings that are equally strict: as long as no step of the first run
executes a word over which the settings are in dispute, every step of the second run ends in the
same way, but for the settings themselves, with the same notices and with the same keys. -/
theorem settings_matter_at_disputed_words (hStrict : first.strict = second.strict) (n : Nat)
    (h : ∀ k < n, ∀ word, ((machine.withConfig first).before keys touch k).1.upcoming? = some word →
      ¬ ((machine.withConfig first).before keys touch k).1.Disputes word first second) :
    ∀ k < n,
      ((machine.withConfig second).stepAt keys touch k).outcome =
          ((machine.withConfig first).stepAt keys touch k).outcome.withConfig second ∧
        ((machine.withConfig second).stepAt keys touch k).keys =
          ((machine.withConfig first).stepAt keys touch k).keys := by
  intro k hk
  have hState := before_withConfig machine first second keys touch hStrict k fun j hj =>
    h j (by omega)
  obtain ⟨hConfig, hWrap⟩ := config_before machine keys touch first k
  rw [stepAt, hState]
  exact step_withConfig hConfig hWrap hStrict (h k hk) _

/-- Settings that differ in everything but strictness. A shift within one register and a sprite
away from the edges leave them undisputed. -/
theorem settings_matter_at_disputed_words_elsewhere :
    let machine : Machine :=
      { Machine.initial {} (.ofSeed 0) with
          memory := Memory.initial.install 0x200 [0x80, 0x06, 0xD0, 0x05] }
    let first : Config := {}
    let second : Config :=
      { frequency := 60, keepIndex := true, shiftInPlace := false, wrap := false }
    let touch : Nat → Keypad → Keypad := fun _ keys => keys
    first.strict = second.strict ∧
    (∀ k < 2, ∀ word,
      ((machine.withConfig first).before .initial touch k).1.upcoming? = some word →
        ¬ ((machine.withConfig first).before .initial touch k).1.Disputes word first second) ∧
    ∀ k < 2,
      ((machine.withConfig second).stepAt .initial touch k).outcome =
          ((machine.withConfig first).stepAt .initial touch k).outcome.withConfig second ∧
        ((machine.withConfig second).stepAt .initial touch k).keys =
          ((machine.withConfig first).stepAt .initial touch k).keys := by
  intro machine first second touch
  have hEvaluated :
      ((machine.withConfig first).before .initial touch 0).1.upcoming? = some 0x8006 ∧
      ((machine.withConfig first).before .initial touch 1).1.upcoming? = some 0xD005 ∧
      ¬ ((machine.withConfig first).before .initial touch 0).1.Disputes 0x8006 first second ∧
      ¬ ((machine.withConfig first).before .initial touch 1).1.Disputes 0xD005 first second := by
    decide +kernel +revert
  obtain ⟨hShift, hDraw, hShiftAgrees, hDrawAgrees⟩ := hEvaluated
  have hUndisputed : ∀ k < 2, ∀ word,
      ((machine.withConfig first).before .initial touch k).1.upcoming? = some word →
        ¬ ((machine.withConfig first).before .initial touch k).1.Disputes word first second := by
    intro k hk word hWord
    obtain rfl | rfl : k = 0 ∨ k = 1 := by omega
    · obtain rfl := Option.some.inj (hShift.symm.trans hWord)
      exact hShiftAgrees
    · obtain rfl := Option.some.inj (hDraw.symm.trans hWord)
      exact hDrawAgrees
  exact ⟨rfl, hUndisputed,
    settings_matter_at_disputed_words machine first second .initial touch rfl 2 hUndisputed⟩

end Machine

end Chip8
