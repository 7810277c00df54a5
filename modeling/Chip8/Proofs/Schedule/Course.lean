import Chip8.Proofs.Schedule.Processing

/-!
The course of catching up: every tick that is processed, with the progress made before it. What the
end of catching up is to its course is proved by induction along both.
-/

namespace Chip8

/-- What is done until nothing is left to do, each time with the state that it is done in. -/
def trail {σ τ : Type} (next? : σ → Option τ) (perform : σ → τ → σ) (left : σ → Nat)
    (uses : ∀ s t, next? s = some t → left (perform s t) < left s) (s : σ) : List (σ × τ) :=
  match h : next? s with
  | none => []
  | some t =>
    have := uses s t h
    (s, t) :: trail next? perform left uses (perform s t)
termination_by left s

section

variable {σ τ : Type} {next? : σ → Option τ} {perform : σ → τ → σ} {left : σ → Nat}
  {uses : ∀ s t, next? s = some t → left (perform s t) < left s}

theorem trail_of_none {s : σ} (h : next? s = none) : trail next? perform left uses s = [] := by
  rw [trail]
  split
  · rfl
  · next hSome => rw [h] at hSome; contradiction

theorem trail_of_some {s : σ} {t : τ} (h : next? s = some t) :
    trail next? perform left uses s = (s, t) :: trail next? perform left uses (perform s t) := by
  rw [trail]
  split
  · next hNone => rw [h] at hNone; contradiction
  · next u hSome => rw [Option.some.inj (h.symm.trans hSome)]

/-- What holds where nothing is left to do, and goes back over everything done, holds of the trail
from any state and of the end that it leads to. -/
theorem trail_induction {motive : σ → List (σ × τ) → σ → Prop}
    (done : ∀ s, next? s = none → motive s [] s)
    (step : ∀ s t rest final, next? s = some t → motive (perform s t) rest final →
      motive s ((s, t) :: rest) final) (s : σ) :
    motive s (trail next? perform left uses s) (exhaust next? perform left uses s) := by
  fun_induction trail next? perform left uses s with
  | case1 s h =>
      rw [exhaust_of_none h]
      exact done s h
  | case2 s t h hLess ih =>
      rw [exhaust_of_some h]
      exact step s t _ _ h ih

end

namespace Progress

variable {κ : Type} [KeyInput κ]

/-- The ticks processed at a moment, each with the progress made before it. -/
def course (now : Nat) (progress : Progress κ) : List (Progress κ × Tick) :=
  trail (due? now) perform remaining (remaining_perform_lt now) progress

theorem course_of_due?_eq_none {now : Nat} {progress : Progress κ} (h : progress.due? now = none) :
    progress.course now = [] :=
  trail_of_none h

theorem course_of_due?_eq_some {now : Nat} {progress : Progress κ} {tick : Tick}
    (h : progress.due? now = some tick) :
    progress.course now = (progress, tick) :: (progress.perform tick).course now :=
  trail_of_some h

/-- What holds where no tick is due, and goes back over every tick processed, holds of all ticks
processed at a moment. -/
theorem course_induction {now : Nat}
    {motive : Progress κ → List (Progress κ × Tick) → Progress κ → Prop}
    (done : ∀ progress, progress.due? now = none → motive progress [] progress)
    (step : ∀ progress tick rest final, progress.due? now = some tick →
      motive (progress.perform tick) rest final → motive progress ((progress, tick) :: rest) final)
    (progress : Progress κ) :
    motive progress (progress.course now) (progress.catchUp now) :=
  trail_induction done step progress

/-- The ticks processed at a moment, by their numbers. -/
def ticks (now : Nat) (progress : Progress κ) : List NumberedTick :=
  (progress.course now).map fun (reached, kind) => reached.scheduler.timeline.next kind

theorem processes_ticks (now : Nat) (progress : Progress κ) :
    Processes now progress (progress.ticks now) (progress.catchUp now) := by
  refine course_induction (motive := fun progress course final =>
    Processes now progress
      (course.map fun (reached, kind) => reached.scheduler.timeline.next kind) final) ?_ ?_ progress
  · intro progress _
    exact .done progress
  · intro progress kind rest final hDue hRest
    exact .next hDue hRest

end Progress

end Chip8
