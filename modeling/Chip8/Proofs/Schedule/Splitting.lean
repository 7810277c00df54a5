import Chip8.Keys.Keypad
import Chip8.Proofs.Schedule.Chronology

/-!
Time cut into calls. Going on to a moment in several calls, at moments that never go back, ends
where one call ends, gives the same signals and notices, and meets the same fault.
-/

namespace Chip8

section

variable {σ τ : Type} {perform : σ → τ → σ} {left : σ → Nat} {first? second? : σ → Option τ}
  {usesFirst : ∀ s t, first? s = some t → left (perform s t) < left s}
  {usesSecond : ∀ s t, second? s = some t → left (perform s t) < left s}

/-- What is done anyway may be done before. -/
theorem exhaust_exhaust (h : ∀ s t, first? s = some t → second? s = some t) (s : σ) :
    exhaust second? perform left usesSecond (exhaust first? perform left usesFirst s) =
      exhaust second? perform left usesSecond s := by
  refine exhaust_induction
    (motive := fun s' => exhaust second? perform left usesSecond s' =
      exhaust second? perform left usesSecond s) s rfl ?_
  intro s' t hFirst ih
  rw [← ih, exhaust_of_some (h s' t hFirst)]

/-- A change that work does not notice may be made before or after it. -/
theorem exhaust_comm (change : σ → σ) (hNext : ∀ s, second? (change s) = first? s)
    (hPerform : ∀ s t, perform (change s) t = change (perform s t)) (s : σ) :
    exhaust second? perform left usesSecond (change s) =
      change (exhaust first? perform left usesFirst s) := by
  fun_induction exhaust first? perform left usesFirst s with
  | case1 s hNone => rw [exhaust_of_none ((hNext s).trans hNone)]
  | case2 s t hSome hLess ih => rw [exhaust_of_some ((hNext s).trans hSome), hPerform, ih]

end

namespace Progress

variable {κ : Type}

/-- Progress after earlier work: what came of that stands in front. -/
def after (progress earlier : Progress κ) : Progress κ :=
  { progress with
    executed := earlier.executed + progress.executed
    signals := earlier.signals ++ progress.signals
    notices := earlier.notices ++ progress.notices }

theorem fields_of_eq_after {whole first second : Progress κ} (h : whole = second.after first) :
    whole.scheduler = second.scheduler ∧ whole.keys = second.keys ∧
      whole.signals = first.signals ++ second.signals ∧
      whole.notices = first.notices ++ second.notices ∧
      whole.executed = first.executed + second.executed ∧ whole.fault = second.fault := by
  subst h
  exact ⟨rfl, rfl, rfl, rfl, rfl, rfl⟩

theorem start_after {progress : Progress κ} (h : progress.fault = none) :
    (start progress.scheduler progress.keys).after progress = progress := by
  cases progress
  cases h
  simp [start, after]

theorem due?_of_le {early late : Nat} (hOrder : early ≤ late) (progress : Progress κ) (kind : Tick)
    (h : progress.due? early = some kind) : progress.due? late = some kind := by
  have hNext := Timeline.nextTick?_of_le hOrder (nextTick?_of_due? h)
  simp [due?, fault_eq_none_of_due? h, hNext]

theorem due?_eq_none_of_fault {progress : Progress κ} (h : progress.fault ≠ none) (now : Nat) :
    progress.due? now = none := by
  cases hFault : progress.fault with
  | none => exact absurd hFault h
  | some fault => simp [due?, hFault]

variable [KeyInput κ]

/-- A tick does not depend on what has come of earlier work. -/
theorem perform_after (progress earlier : Progress κ) (kind : Tick) :
    (progress.after earlier).perform kind = (progress.perform kind).after earlier := by
  have hAssoc {α : Type} (front middle : Array α) (back : List α) :
      (front ++ middle).appendList back = front ++ middle.appendList back := by
    apply Array.ext'
    simp
  cases kind with
  | timer => simp only [perform, after, hAssoc]
  | instruction =>
      have hExecuted (counts : Prop) [Decidable counts] :
          (if counts then earlier.executed + progress.executed + 1
            else earlier.executed + progress.executed) =
          earlier.executed + if counts then progress.executed + 1 else progress.executed := by
        split <;> rfl
      simp only [perform, after, hAssoc]
      congr 1
      exact hExecuted _

theorem catchUp_after (now : Nat) (progress earlier : Progress κ) :
    (progress.after earlier).catchUp now = (progress.catchUp now).after earlier := by
  have hDue (current : Progress κ) : (current.after earlier).due? now = current.due? now := rfl
  exact exhaust_comm (·.after earlier) hDue (·.perform_after earlier ·) progress

theorem catchUp_catchUp {early late : Nat} (hOrder : early ≤ late) (progress : Progress κ) :
    (progress.catchUp early).catchUp late = progress.catchUp late :=
  exhaust_exhaust (due?_of_le hOrder) progress

end Progress

namespace Scheduler

variable {κ : Type} [KeyInput κ] {scheduler : Scheduler} {keys : κ} {early late : Nat}

/-- What comes of going on to several moments, one after another, with the keys handed on. A fault
ends it all. -/
def advanceThrough (scheduler : Scheduler) (keys : κ) : List Nat → Progress κ
  | [] => .start scheduler keys
  | now :: rest =>
    let first := scheduler.advance now keys
    if first.fault.isSome then first
    else (first.scheduler.advanceThrough first.keys rest).after first

theorem advanceThrough_cons {now : Nat} {rest : List Nat}
    (hFault : (scheduler.advance now keys).fault = none) :
    scheduler.advanceThrough keys (now :: rest) =
      ((scheduler.advance now keys).scheduler.advanceThrough (scheduler.advance now keys).keys
        rest).after (scheduler.advance now keys) := by
  rw [advanceThrough, hFault, Option.isSome_none, if_neg Bool.false_ne_true]

theorem advanceThrough_cons_of_fault {now : Nat} {rest : List Nat}
    (hFault : (scheduler.advance now keys).fault ≠ none) :
    scheduler.advanceThrough keys (now :: rest) = scheduler.advance now keys := by
  rw [advanceThrough, if_pos (Option.isSome_iff_ne_none.mpr hFault)]

/-- If a call is not too late, no later call is because of it. -/
theorem nextDeadline_le_advance (keys : κ)
    (hLag : early ≤ scheduler.timeline.nextDeadline + maxLag) :
    scheduler.timeline.nextDeadline ≤
      (scheduler.advance early keys).scheduler.timeline.nextDeadline := by
  rw [advance_eq_catchUp_of_le hLag]
  obtain ⟨ticks, hTicks⟩ := Progress.exists_processes_catchUp early (.start scheduler keys)
  exact hTicks.passes.nextDeadline_le

/-- After a call without a fault, the next one goes on where one call would have gone on. -/
theorem advance_eq_after (hOrder : early ≤ late)
    (hLag : late ≤ scheduler.timeline.nextDeadline + maxLag)
    (hFault : (scheduler.advance early keys).fault = none) :
    scheduler.advance late keys =
      ((scheduler.advance early keys).scheduler.advance late
        (scheduler.advance early keys).keys).after (scheduler.advance early keys) := by
  have hEarly := Nat.le_trans hOrder hLag
  have hLater := Nat.le_trans hLag
    (Nat.add_le_add_right (nextDeadline_le_advance keys hEarly) maxLag)
  rw [advance_eq_catchUp_of_le hLater, ← Progress.catchUp_after, Progress.start_after hFault,
    advance_eq_catchUp_of_le hEarly, Progress.catchUp_catchUp hOrder, advance_eq_catchUp_of_le hLag]

theorem advance_eq_of_fault (hOrder : early ≤ late)
    (hLag : late ≤ scheduler.timeline.nextDeadline + maxLag)
    (hFault : (scheduler.advance early keys).fault ≠ none) :
    scheduler.advance late keys = scheduler.advance early keys := by
  rw [advance_eq_catchUp_of_le (Nat.le_trans hOrder hLag)] at hFault ⊢
  rw [advance_eq_catchUp_of_le hLag, ← Progress.catchUp_catchUp hOrder]
  exact Progress.catchUp_of_due?_eq_none (Progress.due?_eq_none_of_fault hFault late)

/-- However many moments lie between, what comes of them is what comes of the last one. -/
theorem advanceThrough_eq_advance (times : List Nat)
    (hOrder : (times ++ [late]).Pairwise (· ≤ ·))
    (hLag : late ≤ scheduler.timeline.nextDeadline + maxLag) :
    scheduler.advanceThrough keys (times ++ [late]) = scheduler.advance late keys := by
  induction times generalizing scheduler keys with
  | nil =>
      cases hFault : (scheduler.advance late keys).fault with
      | none => rw [List.nil_append, advanceThrough_cons hFault, advanceThrough,
          Progress.start_after hFault]
      | some fault => rw [List.nil_append, advanceThrough_cons_of_fault (by simp [hFault])]
  | cons now rest ih =>
      rw [List.cons_append, List.pairwise_cons] at hOrder
      have hNow : now ≤ late := hOrder.1 late (List.mem_append_right rest List.mem_cons_self)
      rw [List.cons_append]
      cases hFault : (scheduler.advance now keys).fault with
      | none =>
          have hDeadline := nextDeadline_le_advance keys (Nat.le_trans hNow hLag)
          rw [advanceThrough_cons hFault, advance_eq_after hNow hLag hFault,
            ih hOrder.2 (Nat.le_trans hLag (Nat.add_le_add_right hDeadline maxLag))]
      | some fault =>
          have hFaulty : (scheduler.advance now keys).fault ≠ none := by simp [hFault]
          rw [advanceThrough_cons_of_fault hFaulty, advance_eq_of_fault hNow hLag hFaulty]

/-- One call that is not too late does what a call to an earlier moment and the next call do: the
scheduler, the keys and the fault at the end are the same, the signals and notices are those of the
two, and so are the instructions executed. A fault of the first call is the end of the one call as
well. The same goes for any number of calls at moments that never go back. -/
theorem advance_eq_split_advances (scheduler : Scheduler) (keys : κ) (hOrder : early ≤ late)
    (hLag : late ≤ scheduler.timeline.nextDeadline + maxLag) :
    let whole := scheduler.advance late keys
    let first := scheduler.advance early keys
    let second := first.scheduler.advance late first.keys
    (first.fault = none →
      whole.scheduler = second.scheduler ∧ whole.keys = second.keys ∧
      whole.signals = first.signals ++ second.signals ∧
      whole.notices = first.notices ++ second.notices ∧
      whole.executed = first.executed + second.executed ∧ whole.fault = second.fault) ∧
    (first.fault ≠ none → whole = first) ∧
    ∀ times : List Nat, (times ++ [late]).Pairwise (· ≤ ·) →
      scheduler.advanceThrough keys (times ++ [late]) = whole := by
  dsimp only
  refine ⟨?_, ?_, ?_⟩
  · intro hFault
    exact Progress.fields_of_eq_after (advance_eq_after hOrder hLag hFault)
  · intro hFault
    exact advance_eq_of_fault hOrder hLag hFault
  · intro times hTimes
    exact advanceThrough_eq_advance times hTimes hLag

/-- A second in two calls, or in five, is a second in one call. -/
theorem advance_eq_split_advances_of_one_second :
    ∃ start, ofMachine (.initial { frequency := 700 } (.ofSeed 0)) = .ok start ∧
      let whole := start.advance 1000000000 Keypad.initial
      let first := start.advance 400000000 Keypad.initial
      let second := first.scheduler.advance 1000000000 first.keys
      400000000 ≤ 1000000000 ∧ 1000000000 ≤ start.timeline.nextDeadline + maxLag ∧
      first.fault = none ∧ whole.scheduler = second.scheduler ∧ whole.keys = second.keys ∧
      whole.signals = first.signals ++ second.signals ∧
      whole.executed = first.executed + second.executed ∧
      start.advanceThrough Keypad.initial [0, 300000000, 300000000, 999999999, 1000000000] =
        whole := by
  obtain ⟨start, hStart, hStrict⟩ :=
    exists_ofMachine (.initial { frequency := 700 } (.ofSeed 0)) rfl rfl
  refine ⟨start, hStart, ?_⟩
  dsimp only
  have hLag (deadline : Nat) : 1000000000 ≤ deadline + maxLag := Nat.le_add_left _ _
  have hFault := (permissive_advance hStrict 400000000 Keypad.initial).2
  obtain ⟨hTwo, -, hMany⟩ :=
    advance_eq_split_advances start Keypad.initial (by decide : 400000000 ≤ 1000000000) (hLag _)
  obtain ⟨hScheduler, hKeys, hSignals, -, hExecuted, -⟩ := hTwo hFault
  exact ⟨by decide, hLag _, hFault, hScheduler, hKeys, hSignals, hExecuted,
    hMany [0, 300000000, 300000000, 999999999] (by simp)⟩

end Scheduler

end Chip8
