/-!
Doing all there is to do. The next thing to do depends on the state that the last one has led to,
so the end is not known beforehand; what is left shrinks with every one.
-/

namespace Chip8

/-- Does what there is to do next, until there is nothing. Everything done uses up some of what is
left, so that an end is reached. -/
def exhaust {σ τ : Type} (next? : σ → Option τ) (perform : σ → τ → σ) (left : σ → Nat)
    (uses : ∀ s t, next? s = some t → left (perform s t) < left s) (s : σ) : σ :=
  match h : next? s with
  | none => s
  | some t =>
    have := uses s t h
    exhaust next? perform left uses (perform s t)
termination_by left s

section

variable {σ τ : Type} {next? : σ → Option τ} {perform : σ → τ → σ} {left : σ → Nat}
  {uses : ∀ s t, next? s = some t → left (perform s t) < left s}

theorem exhaust_of_none {s : σ} (h : next? s = none) :
    exhaust next? perform left uses s = s := by
  rw [exhaust]
  split
  · rfl
  · next hSome => rw [h] at hSome; contradiction

theorem exhaust_of_some {s : σ} {t : τ} (h : next? s = some t) :
    exhaust next? perform left uses s = exhaust next? perform left uses (perform s t) := by
  rw [exhaust]
  split
  · next hNone => rw [h] at hNone; contradiction
  · next u hSome => rw [Option.some.inj (h.symm.trans hSome)]

/-- At the end there is nothing left to do. -/
theorem next?_exhaust (s : σ) : next? (exhaust next? perform left uses s) = none := by
  fun_induction exhaust next? perform left uses s with
  | case1 s h => exact h
  | case2 s t h hLess ih => exact ih

/-- What holds at first, and is kept by everything done, holds at the end. -/
theorem exhaust_induction {motive : σ → Prop} (s : σ) (start : motive s)
    (keep : ∀ s t, next? s = some t → motive s → motive (perform s t)) :
    motive (exhaust next? perform left uses s) := by
  fun_induction exhaust next? perform left uses s with
  | case1 s h => exact start
  | case2 s t h hLess ih => exact ih (keep s t h start)

end

end Chip8
