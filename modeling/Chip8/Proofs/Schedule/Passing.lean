import Chip8.Proofs.Schedule.Due

/-!
Passing ticks, one after another, each in its turn. Whatever is passed up to a moment are the first
of the ticks due then, in order and each one once; what is still due comes behind them. So passing
some of them and others later is the same as passing all of them at once.
-/

namespace Chip8.Timeline

/-- Ticks passed up to a moment, one after another. Each of them is the tick named next when its
turn comes. -/
inductive Passes (now : Nat) : Timeline → List NumberedTick → Timeline → Prop where
  | done (timeline : Timeline) : Passes now timeline [] timeline
  | next {timeline final : Timeline} {kind : Tick} {ticks : List NumberedTick}
      (first : timeline.nextTick? now = some kind)
      (rest : Passes now (timeline.pass kind) ticks final) :
      Passes now timeline (timeline.next kind :: ticks) final

theorem nextTick?_of_le {timeline : Timeline} {early late : Nat} (hOrder : early ≤ late)
    {kind : Tick} (h : timeline.nextTick? early = some kind) :
    timeline.nextTick? late = some kind := by
  unfold nextTick? at *
  split at h
  · next hTimer =>
      rw [if_pos ⟨hTimer.1, Nat.le_trans hTimer.2.1 hOrder, hTimer.2.2⟩]
      exact h
  · next hTimer =>
      split at h
      · next hInstruction =>
          have hLater : ¬ (timeline.nextTimer ≤ timeline.nextInstruction ∧
              timeline.Reached late timeline.nextTimer) := by
            rintro ⟨hFirst, -⟩
            exact hTimer ⟨hFirst, Nat.le_trans hFirst hInstruction.1,
              Nat.lt_of_le_of_lt hFirst hInstruction.2⟩
          rw [if_neg hLater, if_pos ⟨Nat.le_trans hInstruction.1 hOrder, hInstruction.2⟩]
          exact h
      · cases h

theorem nextDeadline_le_pass (timeline : Timeline) (tick : Tick) :
    timeline.nextDeadline ≤ (timeline.pass tick).nextDeadline := by
  simp only [nextDeadline, nextInstruction, nextTimer]
  cases tick with
  | instruction =>
      have hLater := tickMoment_mono timeline.rate (Nat.le_add_right (timeline.instructions + 1) 1)
      simp only [pass]
      omega
  | timer =>
      have hLater := tickMoment_mono timerRate (Nat.le_add_right (timeline.timerTicks + 1) 1)
      simp only [pass]
      omega

/-- A tick that precedes another does not come after it. -/
theorem Precedes.asymm {timeline : Timeline} {a b : NumberedTick} (h : timeline.Precedes a b) :
    ¬ timeline.Precedes b a := by
  intro hBack
  rcases h with hLess | ⟨hSame, hRank⟩
  · rcases hBack with hLess' | ⟨hSame, -⟩ <;> omega
  · rcases hBack with hLess | ⟨-, hRank'⟩
    · omega
    · rcases hRank with ⟨hTimer, hInstruction⟩ | ⟨hKind, hNumber⟩
      · rcases hRank' with ⟨hOther, -⟩ | ⟨hOther, -⟩
        · cases hInstruction.symm.trans hOther
        · cases hTimer.symm.trans (hOther.symm.trans hInstruction)
      · rcases hRank' with ⟨hTimer, hInstruction⟩ | ⟨-, hNumber'⟩
        · cases hTimer.symm.trans (hKind.symm.trans hInstruction)
        · omega

namespace Passes

variable {now later : Nat} {start middle final : Timeline} {ticks first second : List NumberedTick}

theorem append (hFirst : Passes now start first middle) (hSecond : Passes now middle second final) :
    Passes now start (first ++ second) final := by
  induction hFirst with
  | done => exact hSecond
  | next due _ ih => exact .next due (ih hSecond)

/-- What is passed up to a moment is passed up to any later one as well. -/
theorem mono (h : Passes now start ticks final) (hOrder : now ≤ later) :
    Passes later start ticks final := by
  induction h with
  | done timeline => exact .done timeline
  | next due _ ih => exact .next (nextTick?_of_le hOrder due) ih

/-- What passing the tick named next keeps holds after all ticks that are passed. -/
theorem keeps {motive : Timeline → Prop} (h : Passes now start ticks final)
    (hPass : ∀ timeline kind, motive timeline → timeline.nextTick? now = some kind →
      motive (timeline.pass kind))
    (hStart : motive start) : motive final := by
  induction h with
  | done => exact hStart
  | next due _ ih => exact ih (hPass _ _ hStart due)

theorem origin_eq (h : Passes now start ticks final) : final.origin = start.origin :=
  h.keeps (motive := fun timeline => timeline.origin = start.origin)
    (fun timeline kind hOrigin _ => by rw [origin_pass, hOrigin]) rfl

theorem nextDeadline_le (h : Passes now start ticks final) :
    start.nextDeadline ≤ final.nextDeadline :=
  h.keeps (motive := fun timeline => start.nextDeadline ≤ timeline.nextDeadline)
    (fun timeline kind hTimeline _ => Nat.le_trans hTimeline (timeline.nextDeadline_le_pass kind))
    (Nat.le_refl _)

theorem passed_eq (h : Passes now start ticks final) (kind : Tick) :
    final.passed kind = start.passed kind + ticks.countP (·.kind = kind) := by
  induction h with
  | done => simp
  | @next timeline final first ticks due rest ih =>
      rw [ih, passed_pass, List.countP_cons]
      by_cases hKind : kind = first
      · simp only [Timeline.next, hKind, if_true, decide_true]
        omega
      · simp [Timeline.next, hKind, Ne.symm hKind]

/-- Every tick passed uses up one of those that remain. -/
theorem remaining_add_length_le (h : Passes now start ticks final) :
    final.remaining + ticks.length ≤ start.remaining := by
  induction h with
  | done => simp
  | next due _ ih =>
      have hLess := remaining_pass_lt due
      rw [List.length_cons]
      omega

/-- A due tick is either passed or still due. -/
theorem isDue_iff (h : Passes now start ticks final) (hNow : now < horizon) (tick : NumberedTick) :
    start.IsDue now tick ↔ tick ∈ ticks ∨ final.IsDue now tick := by
  induction h with
  | done => simp
  | next due rest ih =>
      rw [isDue_iff_of_pass (moment_next_le hNow due), ih, List.mem_cons, or_assoc]

/-- A tick that is passed precedes all that are still to come after it. -/
theorem precedes_of_mem (h : Passes now start ticks final) (hNow : now < horizon)
    {tick other : NumberedTick} (hTick : tick ∈ ticks)
    (hOther : final.passed other.kind < other.number) :
    start.Precedes tick other := by
  induction h with
  | done => cases hTick
  | @next timeline final kind ticks due rest ih =>
      rcases List.mem_cons.mp hTick with rfl | hRest
      · rw [rest.passed_eq] at hOther
        exact precedes_of_nextTick? hNow due (by omega)
      · have hLater := ih hRest hOther
        rwa [precedes_pass] at hLater

theorem pairwise_precedes (h : Passes now start ticks final) (hNow : now < horizon) :
    ticks.Pairwise start.Precedes := by
  induction h with
  | done => exact .nil
  | next due rest ih =>
      rw [precedes_pass] at ih
      refine .cons (fun tick hTick => ?_) ih
      have hLater := (rest.isDue_iff hNow tick).mpr (.inl hTick)
      exact precedes_of_nextTick? hNow due hLater.1

/-- The ticks passed are those of the due ones that come no later than the last of them. -/
theorem mem_iff_of_append_singleton {last : NumberedTick}
    (h : Passes now start (ticks ++ [last]) final) (hNow : now < horizon) (tick : NumberedTick) :
    tick ∈ ticks ++ [last] ↔
      start.IsDue now tick ∧ (tick = last ∨ start.Precedes tick last) := by
  have hLast : last ∈ ticks ++ [last] := List.mem_append_right ticks (List.mem_singleton_self last)
  constructor
  · intro hTick
    refine ⟨(h.isDue_iff hNow tick).mpr (.inl hTick), ?_⟩
    rcases List.mem_append.mp hTick with hEarlier | hSame
    · have hOrder := (List.pairwise_append.mp (h.pairwise_precedes hNow)).2.2
      exact .inr (hOrder tick hEarlier last (List.mem_singleton_self last))
    · exact .inl (List.mem_singleton.mp hSame)
  · rintro ⟨hDue, rfl | hBefore⟩
    · exact hLast
    · refine ((h.isDue_iff hNow tick).mp hDue).resolve_right fun hStill => ?_
      exact hBefore.asymm (h.precedes_of_mem hNow hLast hStill.1)

/-- Where nothing is due any more, the ticks passed are all that were due. -/
theorem mem_iff_of_nextTick?_eq_none (h : Passes now start ticks final) (hNow : now < horizon)
    (hEnd : final.nextTick? now = none) (tick : NumberedTick) :
    tick ∈ ticks ↔ start.IsDue now tick := by
  rw [h.isDue_iff hNow, or_iff_left (not_isDue_of_nextTick?_eq_none hNow hEnd tick)]

end Passes

end Chip8.Timeline
