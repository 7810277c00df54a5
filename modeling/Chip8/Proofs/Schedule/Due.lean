import Chip8.Proofs.Schedule.Moments

/-!
The ticks of a timeline by their numbers, and the order in which they are due. The tick that a
timeline names next is the first one that is due and not yet passed.
-/

namespace Chip8

/-- A tick and its number since the origin; the first one has number one. -/
structure NumberedTick where
  kind : Tick
  number : Nat
  deriving DecidableEq

namespace Timeline

/-- Ticks per second. -/
def rateOf (timeline : Timeline) : Tick → Nat
  | .instruction => timeline.rate
  | .timer => timerRate

/-- How many ticks have been passed since the origin. -/
def passed (timeline : Timeline) : Tick → Nat
  | .instruction => timeline.instructions
  | .timer => timeline.timerTicks

/-- When a tick is due: as many nanoseconds after the origin as its number and rate say. -/
def moment (timeline : Timeline) (tick : NumberedTick) : Nat :=
  timeline.origin + tickOffset (timeline.rateOf tick.kind) tick.number

/-- The first tick of a kind that has not been passed. -/
def next (timeline : Timeline) (kind : Tick) : NumberedTick :=
  ⟨kind, timeline.passed kind + 1⟩

/-- Whether a tick has not been passed although its moment has come. -/
def IsDue (timeline : Timeline) (now : Nat) (tick : NumberedTick) : Prop :=
  timeline.passed tick.kind < tick.number ∧ timeline.moment tick ≤ now

/-- The order of ticks: by their moments. At the same moment a timer tick goes before an
instruction tick, and ticks of one kind go by their numbers. -/
def Precedes (timeline : Timeline) (a b : NumberedTick) : Prop :=
  timeline.moment a < timeline.moment b ∨
    timeline.moment a = timeline.moment b ∧
      (a.kind = .timer ∧ b.kind = .instruction ∨ a.kind = b.kind ∧ a.number < b.number)

variable {timeline : Timeline}

theorem rateOf_pos (timeline : Timeline) (kind : Tick) : 0 < timeline.rateOf kind := by
  cases kind with
  | instruction => exact timeline.rate_pos
  | timer => exact (by decide : 0 < timerRate)

@[simp] theorem origin_pass (timeline : Timeline) (tick : Tick) :
    (timeline.pass tick).origin = timeline.origin := by
  cases tick <;> rfl

@[simp] theorem rate_pass (timeline : Timeline) (tick : Tick) :
    (timeline.pass tick).rate = timeline.rate := by
  cases tick <;> rfl

@[simp] theorem rateOf_pass (timeline : Timeline) (tick : Tick) :
    (timeline.pass tick).rateOf = timeline.rateOf := by
  funext kind
  cases tick <;> cases kind <;> rfl

@[simp] theorem moment_pass (timeline : Timeline) (tick : Tick) :
    (timeline.pass tick).moment = timeline.moment := by
  funext numbered
  simp [moment]

@[simp] theorem precedes_pass (timeline : Timeline) (tick : Tick) :
    (timeline.pass tick).Precedes = timeline.Precedes := by
  funext a b
  simp [Precedes]

theorem passed_pass (timeline : Timeline) (tick kind : Tick) :
    (timeline.pass tick).passed kind = timeline.passed kind + if kind = tick then 1 else 0 := by
  cases tick <;> cases kind <;> rfl

/-- Passing a tick takes it, and no other, from those that are due. -/
theorem isDue_iff_of_pass {now : Nat} {kind : Tick} (h : timeline.moment (timeline.next kind) ≤ now)
    (tick : NumberedTick) :
    timeline.IsDue now tick ↔
      tick = timeline.next kind ∨ (timeline.pass kind).IsDue now tick := by
  obtain ⟨tickKind, number⟩ := tick
  by_cases hKind : tickKind = kind
  · subst hKind
    simp only [IsDue, moment_pass, passed_pass, next, NumberedTick.mk.injEq, true_and, if_true]
    constructor
    · rintro ⟨hPassed, hMoment⟩
      by_cases hNumber : number = timeline.passed tickKind + 1
      · exact .inl hNumber
      · exact .inr ⟨by omega, hMoment⟩
    · rintro (rfl | ⟨hPassed, hMoment⟩)
      · exact ⟨by omega, h⟩
      · exact ⟨by omega, hMoment⟩
  · simp [IsDue, passed_pass, next, hKind]

/-- Of the ticks of a kind that have not been passed, the first one is due first. -/
theorem moment_next_le_moment {tick : NumberedTick}
    (h : timeline.passed tick.kind < tick.number) :
    timeline.moment (timeline.next tick.kind) ≤ timeline.moment tick :=
  Nat.add_le_add_left (tickOffset_mono _ h) _

theorem reached_instruction_iff {now : Nat} (hNow : now < horizon) :
    timeline.Reached now timeline.nextInstruction ↔
      timeline.moment (timeline.next .instruction) ≤ now := by
  simp only [Reached, nextInstruction, tickMoment_eq_min, moment, next, rateOf, passed]
  omega

theorem reached_timer_iff {now : Nat} (hNow : now < horizon) :
    timeline.nextTimer ≤ timeline.nextInstruction ∧ timeline.Reached now timeline.nextTimer ↔
      timeline.moment (timeline.next .timer) ≤ timeline.moment (timeline.next .instruction) ∧
        timeline.moment (timeline.next .timer) ≤ now := by
  simp only [Reached, nextTimer, nextInstruction, tickMoment_eq_min, moment, next, rateOf, passed]
  omega

/-- Before the horizon the tick named next is told by exact moments. -/
theorem nextTick?_eq {now : Nat} (hNow : now < horizon) :
    timeline.nextTick? now =
      if timeline.moment (timeline.next .timer) ≤ timeline.moment (timeline.next .instruction) ∧
          timeline.moment (timeline.next .timer) ≤ now then some .timer
      else if timeline.moment (timeline.next .instruction) ≤ now then some .instruction
      else none := by
  simp only [nextTick?, reached_timer_iff hNow, reached_instruction_iff hNow]

theorem nextTick?_eq_timer {now : Nat} (hNow : now < horizon)
    (h : timeline.nextTick? now = some .timer) :
    timeline.moment (timeline.next .timer) ≤ timeline.moment (timeline.next .instruction) ∧
      timeline.moment (timeline.next .timer) ≤ now := by
  rw [nextTick?_eq hNow] at h
  split at h
  · assumption
  · split at h <;> contradiction

theorem nextTick?_eq_instruction {now : Nat} (hNow : now < horizon)
    (h : timeline.nextTick? now = some .instruction) :
    timeline.moment (timeline.next .instruction) < timeline.moment (timeline.next .timer) ∧
      timeline.moment (timeline.next .instruction) ≤ now := by
  rw [nextTick?_eq hNow] at h
  split at h
  · contradiction
  · split at h
    · omega
    · contradiction

theorem nextTick?_eq_none {now : Nat} (hNow : now < horizon)
    (h : timeline.nextTick? now = none) (kind : Tick) :
    now < timeline.moment (timeline.next kind) := by
  rw [nextTick?_eq hNow] at h
  split at h
  · contradiction
  · split at h
    · contradiction
    · cases kind <;> omega

theorem moment_next_le {now : Nat} (hNow : now < horizon) {kind : Tick}
    (h : timeline.nextTick? now = some kind) : timeline.moment (timeline.next kind) ≤ now := by
  cases kind with
  | instruction => exact (nextTick?_eq_instruction hNow h).2
  | timer => exact (nextTick?_eq_timer hNow h).2

/-- The tick named next precedes all that are still to come after it. -/
theorem precedes_of_nextTick? {now : Nat} (hNow : now < horizon) {kind : Tick}
    (h : timeline.nextTick? now = some kind) {tick : NumberedTick}
    (hTick : (timeline.pass kind).passed tick.kind < tick.number) :
    timeline.Precedes (timeline.next kind) tick := by
  rw [passed_pass] at hTick
  have hFirst : timeline.moment (timeline.next tick.kind) ≤ timeline.moment tick :=
    moment_next_le_moment (by omega)
  by_cases hKind : tick.kind = kind
  · rw [hKind] at hFirst
    rw [if_pos hKind] at hTick
    rcases Nat.lt_or_eq_of_le hFirst with hLt | hEq
    · exact .inl hLt
    · exact .inr ⟨hEq, .inr ⟨hKind.symm, by rwa [next, ← hKind]⟩⟩
  · cases kind with
    | instruction =>
        have hTimer : tick.kind = .timer := by
          cases hTick : tick.kind with
          | instruction => exact absurd hTick hKind
          | timer => rfl
        rw [hTimer] at hFirst
        have hBefore := (nextTick?_eq_instruction hNow h).1
        exact .inl (Nat.lt_of_lt_of_le hBefore hFirst)
    | timer =>
        have hInstruction : tick.kind = .instruction := by
          cases hTick : tick.kind with
          | instruction => rfl
          | timer => exact absurd hTick hKind
        rw [hInstruction] at hFirst
        have hBefore := (nextTick?_eq_timer hNow h).1
        rcases Nat.lt_or_eq_of_le (Nat.le_trans hBefore hFirst) with hLt | hEq
        · exact .inl hLt
        · exact .inr ⟨hEq, .inl ⟨rfl, hInstruction⟩⟩

theorem not_isDue_of_nextTick?_eq_none {now : Nat} (hNow : now < horizon)
    (h : timeline.nextTick? now = none) (tick : NumberedTick) : ¬ timeline.IsDue now tick := by
  rintro ⟨hPassed, hMoment⟩
  have hNext := nextTick?_eq_none hNow h tick.kind
  have hFirst := moment_next_le_moment hPassed
  omega

theorem lt_nextDeadline {now : Nat} (hNow : now < horizon)
    (h : ∀ kind, now < timeline.moment (timeline.next kind)) : now < timeline.nextDeadline := by
  have hInstruction := h .instruction
  have hTimer := h .timer
  simp only [nextDeadline, nextTimer, nextInstruction, tickMoment_eq_min, moment, next, rateOf,
    passed] at *
  omega

end Timeline

end Chip8
