import Chip8.Keys.Keypad
import Chip8.Proofs.Circumstances.Step
import Chip8.Proofs.Schedule.Conduct
import Mathlib.Data.List.Forall2

/-!
Sessions whose timers tick at different times. As long as no word is executed that reads the delay
timer, two sessions with the same steps and the same touches of the keys in between differ in
nothing but their timers. So do two schedulers, at any frequencies and with any calls.
-/

namespace Chip8

/-- Whether a word reads the delay timer. -/
def Word.ReadsDelay (word : Word) : Prop :=
  word.family = 0xF ∧ word.low = 0x07

instance (word : Word) : Decidable word.ReadsDelay :=
  inferInstanceAs (Decidable (_ ∧ _))

/-- The same machine at another frequency and with other timers. -/
def Machine.retimed (machine : Machine) (frequency : UInt32) (delay sound : UInt8) : Machine :=
  { machine with
    config := { machine.config with frequency := frequency }
    registers := { machine.registers with delay := delay, sound := sound } }

/-- Whether two machines, made for one frequency each, differ in nothing else but their timers. -/
def Machine.AlikeAt (first second : UInt32) (one other : Machine) : Prop :=
  one.config.frequency = first ∧ ∃ delay sound, other = one.retimed second delay sound

/-- Whether two steps have ended in the same way, in machines that differ in nothing but their
frequencies and their timers. -/
structure Stepped.AlikeAt {κ : Type} (first second : UInt32) (one other : Stepped κ) : Prop where
  machine : one.outcome.machine.AlikeAt first second other.outcome.machine
  notices : other.outcome.notices = one.outcome.notices
  fault : other.outcome.fault = one.outcome.fault
  keys : other.keys = one.keys

/-- Whether two sessions differ in nothing but the frequencies and the timers of their machines. -/
structure Session.AlikeAt {κ : Type} (first second : UInt32) (one other : Session κ) : Prop where
  machine : one.machine.AlikeAt first second other.machine
  keys : other.keys = one.keys

namespace Machine

variable {κ : Type} [KeyInput κ] {first second : UInt32} {machine one other : Machine}

theorem under_eq_retimed {c : Circumstances}
    (hConfig : c.config = { machine.config with frequency := second })
    (hWrap : c.wrap = machine.screen.wrap) :
    machine.under c = machine.retimed second c.delay c.sound := by
  obtain ⟨config, wrap, delay, sound⟩ := c
  subst hConfig hWrap
  rfl

/-- A step that does not read the delay timer goes alike whatever the timers and the frequency. -/
theorem AlikeAt.step (h : one.AlikeAt first second other)
    (hReads : ∀ word, one.upcoming? = some word → ¬ word.ReadsDelay) (keys : κ) :
    (one.step keys).AlikeAt first second (other.step keys) := by
  obtain ⟨hFrequency, delay, sound, rfl⟩ := h
  let c : Circumstances :=
    ⟨{ one.config with frequency := second }, one.screen.wrap, delay, sound⟩
  have hOverlooks (word : Word) (instruction : Instruction) (hWord : one.upcoming? = some word)
      (hDecode : word.decode = some instruction) : one.Overlooks c instruction := by
    refine overlooks_of_eq rfl rfl rfl fun x hRead => ?_
    obtain ⟨hFamily, hLow, -⟩ := Word.encodes_of_decode (hRead ▸ hDecode)
    exact absurd ⟨hFamily, hLow⟩ (hReads word hWord)
  have hStep : (one.retimed second delay sound).step keys =
      (one.step keys).under (c.afterStep one) := step_under hOverlooks keys
  obtain ⟨hConfig, hWrap⟩ := c.settings_afterStep one
  have hFinal : ((one.step keys).outcome.machine.under (c.afterStep one)) =
      (one.step keys).outcome.machine.retimed second (c.afterStep one).delay
        (c.afterStep one).sound := by
    apply under_eq_retimed
    · rw [hConfig, config_step]
    · rw [hWrap, wrap_step]
  rw [hStep]
  refine ⟨⟨?_, _, _, hFinal⟩, rfl, rfl, rfl⟩
  rw [config_step, hFrequency]

theorem AlikeAt.tickTimers_left (h : one.AlikeAt first second other) :
    one.tickTimers.AlikeAt first second other := by
  obtain ⟨hFrequency, delay, sound, rfl⟩ := h
  exact ⟨hFrequency, delay, sound, rfl⟩

theorem AlikeAt.tickTimers_right (h : one.AlikeAt first second other) :
    one.AlikeAt first second other.tickTimers := by
  obtain ⟨hFrequency, delay, sound, rfl⟩ := h
  exact ⟨hFrequency, countDown delay, countDown sound, rfl⟩

end Machine

namespace Session

variable {κ ε : Type} [KeyInput κ]

/-- All acts but the ticks. -/
def untimed (acts : List (Act ε)) : List (Act ε) :=
  acts.filter fun act => !act.isTick

/-- Whether no step of a session executes a word that reads the delay timer. -/
def ReadsNoDelay (react : ε → κ → κ) (session : Session κ) (acts : List (Act ε)) : Prop :=
  ∀ earlier later, acts = earlier ++ .step :: later →
    ∀ word, (session.play react earlier).machine.upcoming? = some word → ¬ word.ReadsDelay

variable {react : ε → κ → κ} {first second : UInt32} {one other : Session κ}

theorem ReadsNoDelay.tail {act : Act ε} {rest : List (Act ε)}
    (h : one.ReadsNoDelay react (act :: rest)) : (one.act react act).ReadsNoDelay react rest := by
  rintro earlier later rfl
  exact h (act :: earlier) later rfl

/-- Ticks of the other session up to its next act of another kind make no difference. -/
theorem AlikeAt.passTicks (h : one.AlikeAt first second other) (react : ε → κ → κ)
    {others rest : List (Act ε)} {next : Act ε} (hUntimed : untimed others = next :: rest) :
    ∃ (later : Session κ) (others' : List (Act ε)), one.AlikeAt first second later ∧
      other.steps react others = later.steps react (next :: others') ∧
      other.play react others = later.play react (next :: others') ∧ untimed others' = rest := by
  induction others generalizing other with
  | nil => cases hUntimed
  | cons act others ih =>
      cases act with
      | tick =>
          have hTicked : one.AlikeAt first second (other.act react .tick) :=
            ⟨h.machine.tickTimers_right, h.keys⟩
          exact ih hTicked hUntimed
      | step =>
          obtain ⟨rfl, rfl⟩ := List.cons.inj hUntimed
          exact ⟨other, others, h, rfl, rfl, rfl⟩
      | touch event =>
          obtain ⟨rfl, rfl⟩ := List.cons.inj hUntimed
          exact ⟨other, others, h, rfl, rfl, rfl⟩

theorem AlikeAt.playTicks (h : one.AlikeAt first second other) (react : ε → κ → κ)
    {others : List (Act ε)} (hUntimed : untimed others = []) :
    other.steps react others = [] ∧ one.AlikeAt first second (other.play react others) := by
  induction others generalizing other with
  | nil => exact ⟨rfl, h⟩
  | cons act others ih =>
      cases act with
      | tick => exact ih ⟨h.machine.tickTimers_right, h.keys⟩ hUntimed
      | step => cases hUntimed
      | touch event => cases hUntimed

/-- Two sessions with the same acts but for the ticks stay alike, step by step. -/
theorem AlikeAt.play (h : one.AlikeAt first second other) {acts others : List (Act ε)}
    (hUntimed : untimed others = untimed acts) (hReads : one.ReadsNoDelay react acts) :
    List.Forall₂ (Stepped.AlikeAt first second) (one.steps react acts) (other.steps react others) ∧
      (one.play react acts).AlikeAt first second (other.play react others) := by
  induction acts generalizing one other others with
  | nil =>
      obtain ⟨hSteps, hPlay⟩ := h.playTicks react hUntimed
      rw [hSteps]
      exact ⟨.nil, hPlay⟩
  | cons act acts ih =>
      cases act with
      | tick =>
          have hTicked : (one.act react .tick).AlikeAt first second other :=
            ⟨h.machine.tickTimers_left, h.keys⟩
          exact ih hTicked hUntimed hReads.tail
      | step =>
          obtain ⟨later, rest, hLater, hSteps, hPlay, hRest⟩ := h.passTicks react hUntimed
          have hStep : (one.machine.step one.keys).AlikeAt first second
              (later.machine.step later.keys) := by
            rw [hLater.keys]
            exact hLater.machine.step (hReads [] acts rfl) one.keys
          have hNext : (one.act react .step).AlikeAt first second (later.act react .step) :=
            ⟨hStep.machine, hStep.keys⟩
          obtain ⟨hStepsRest, hPlayRest⟩ := ih hNext hRest hReads.tail
          rw [hSteps, hPlay]
          exact ⟨.cons hStep hStepsRest, hPlayRest⟩
      | touch event =>
          obtain ⟨later, rest, hLater, hSteps, hPlay, hRest⟩ := h.passTicks react hUntimed
          have hNext : (one.act react (.touch event)).AlikeAt first second
              (later.act react (.touch event)) :=
            ⟨hLater.machine, congrArg (react event) hLater.keys⟩
          rw [hSteps, hPlay]
          exact ih hNext hRest hReads.tail

/-- Timers matter only where the delay timer is read. Two sessions that start in the same state and
differ only in when the timers tick go through the same steps, with the same results and the same
keys left, and their machines never differ in anything but the timers. Hence the same holds of two
schedulers whose machines are made for any two frequencies, with time split between their calls in
any way, if their machines make the same steps between the same touches of the keys. -/
theorem timers_matter_at_reads (react : ε → κ → κ) :
    (∀ (start : Session κ) (acts others : List (Act ε)), untimed others = untimed acts →
      start.ReadsNoDelay react acts →
      let frequency := start.machine.config.frequency
      List.Forall₂ (Stepped.AlikeAt frequency frequency) (start.steps react acts)
          (start.steps react others) ∧
        (start.play react acts).AlikeAt frequency frequency (start.play react others)) ∧
    ∀ (first second : UInt32) (one other : Conducted κ) (orders others : List (Order ε)),
      one.session.AlikeAt first second other.session →
      untimed (other.acts react others) = untimed (one.acts react orders) →
      one.session.ReadsNoDelay react (one.acts react orders) →
      List.Forall₂ (Stepped.AlikeAt first second)
          (one.session.steps react (one.acts react orders))
          (other.session.steps react (other.acts react others)) ∧
        (one.conduct react orders).session.AlikeAt first second
          (other.conduct react others).session := by
  constructor
  · intro start acts others hUntimed hReads frequency
    have hStart : start.AlikeAt frequency frequency start :=
      ⟨⟨rfl, start.machine.registers.delay, start.machine.registers.sound, rfl⟩, rfl⟩
    exact hStart.play hUntimed hReads
  · intro first second one other orders others hStart hUntimed hReads
    rw [Conducted.session_conduct, Conducted.session_conduct]
    exact hStart.play hUntimed hReads

/-- A program that sets the delay timer, between ticks that come early and ticks that come late; and
two schedulers of which one has passed a timer tick and the other has not been called. -/
theorem timers_matter_at_reads_of_setting :
    let untouched : Unit → Keypad → Keypad := fun _ keys => keys
    let machine : Machine :=
      { Machine.initial { frequency := 1 } (.ofSeed 0) with
          memory := Memory.install ⟨Vector.replicate 4096 0⟩ 0x200 [0x60, 0x05, 0xF0, 0x15]
          registers := { Registers.initial with delay := 9 } }
    let start : Session Keypad := ⟨machine, .initial⟩
    let acts : List (Act Unit) := [.step, .tick, .step]
    let others : List (Act Unit) := [.tick, .step, .step, .tick]
    let one : Conducted Keypad := ⟨⟨machine, ⟨1, by decide, 0, 0, 0⟩, false⟩, .initial⟩
    let other : Conducted Keypad :=
      ⟨⟨{ machine with config.frequency := 2 }, ⟨2, by decide, 0, 0, 0⟩, false⟩, .initial⟩
    let orders : List (Order Unit) := [.advance 20000000]
    untimed others = untimed acts ∧
    start.ReadsNoDelay untouched acts ∧
    List.Forall₂ (Stepped.AlikeAt 1 1) (start.steps untouched acts)
      (start.steps untouched others) ∧
    (start.play untouched acts).AlikeAt 1 1 (start.play untouched others) ∧
    one.session.AlikeAt 1 2 other.session ∧
    untimed (other.acts untouched []) = untimed (one.acts untouched orders) ∧
    one.session.ReadsNoDelay untouched (one.acts untouched orders) ∧
    (one.conduct untouched orders).session.AlikeAt 1 2 (other.conduct untouched []).session := by
  intro untouched machine start acts others one other orders
  have hEvaluated : start.machine.upcoming? = some 0x6005 ∧
      (start.play untouched [.step, .tick]).machine.upcoming? = some 0xF015 := by
    decide +kernel +revert
  obtain ⟨hFirst, hSecond⟩ := hEvaluated
  have hReads : start.ReadsNoDelay untouched acts := by
    intro earlier later hActs word hWord
    simp only [acts, List.cons_eq_append_iff, List.cons.injEq, true_and, reduceCtorEq, false_and,
      and_false, List.nil_eq, List.append_eq_nil_iff, exists_const, or_false, false_or] at hActs
    rcases hActs with ⟨rfl, -⟩ | ⟨_, rfl, _, rfl, rfl, -⟩
    · obtain rfl := Option.some.inj (hFirst.symm.trans hWord)
      decide
    · obtain rfl := Option.some.inj (hSecond.symm.trans hWord)
      decide
  have hAlike : one.session.AlikeAt 1 2 other.session := ⟨⟨rfl, 9, 0, rfl⟩, rfl⟩
  have hActs : one.acts untouched orders = [.tick] := by
    let start := Progress.start one.scheduler one.keys
    have hTimer : start.due? 20000000 = some .timer := by decide +kernel
    have hLag : start.refreshed 20000000 = start :=
      Progress.refreshed_of_le (Nat.le_trans (by decide) (Nat.le_add_left maxLag _))
    have hNothing : (start.perform .timer).due? 20000000 = none := by
      have hFault : (start.perform .timer).fault = none := rfl
      rw [Progress.due?, hFault, Progress.timeline_perform]
      decide +kernel
    have hCourse : start.course 20000000 = [(start, .timer)] := by
      rw [Progress.course_of_due?_eq_some hTimer, Progress.course_of_due?_eq_none hNothing]
    rw [Conducted.acts, Conducted.acts, Conducted.actsOf, hLag, hCourse]
    rfl
  have hNone : one.session.ReadsNoDelay untouched (one.acts untouched orders) := by
    intro earlier later hStep
    have hMem : Act.step ∈ one.acts untouched orders := by
      rw [hStep]
      simp
    rw [hActs] at hMem
    simp at hMem
  obtain ⟨hSessions, hSchedulers⟩ := timers_matter_at_reads untouched
  obtain ⟨hSteps, hPlay⟩ := hSessions start acts others rfl hReads
  have hUntimed : untimed (other.acts untouched []) = untimed (one.acts untouched orders) := by
    rw [hActs]
    rfl
  obtain ⟨-, hConduct⟩ := hSchedulers 1 2 one other orders [] hAlike hUntimed hNone
  exact ⟨rfl, hReads, hSteps, hPlay, hAlike, hUntimed, hNone, hConduct⟩

end Session

end Chip8
