import Chip8.Proofs.Schedule.Rates
import Chip8.Proofs.Schedule.Splitting

/-!
Batches: the ticks that a call processes. As long as no call skips ticks, the batches of calls
follow one another in the order of the ticks, whether calls end in a fault or not.
-/

namespace Chip8

namespace Progress

variable {κ : Type} [KeyInput κ]

end Progress

/-- The first calls of an endless sequence. -/
def firstCalls (calls : Nat → Call) (n : Nat) : List Call :=
  (List.range n).map calls

theorem firstCalls_succ (calls : Nat → Call) (n : Nat) :
    firstCalls calls (n + 1) = calls 0 :: firstCalls (fun m => calls (m + 1)) n := by
  rw [firstCalls, List.range_succ_eq_map, List.map_cons, List.map_map]
  rfl

theorem firstCalls_succ_eq_append (calls : Nat → Call) (n : Nat) :
    firstCalls calls (n + 1) = firstCalls calls n ++ [calls n] := by
  rw [firstCalls, List.range_succ, List.map_append]
  rfl

namespace Scheduler

variable {scheduler : Scheduler} {calls : List Call} {later : Nat}

theorem passes_call {call : Call} (hLag : call.now ≤ scheduler.timeline.nextDeadline + maxLag) :
    Timeline.Passes call.now scheduler.timeline (scheduler.batch call)
      (scheduler.call call).scheduler.timeline :=
  (processes_call_of_le hLag).passes

/-- The batches of calls that keep pace are one batch of the latest moment. -/
theorem passes_batches (hPace : scheduler.KeepsPace calls)
    (hLater : ∀ call ∈ calls, call.now ≤ later) :
    Timeline.Passes later scheduler.timeline (scheduler.batches calls)
      (scheduler.afterCalls calls).timeline := by
  induction calls generalizing scheduler with
  | nil => exact .done scheduler.timeline
  | cons call rest ih =>
      obtain ⟨hFirst, hRest⟩ := List.forall_mem_cons.mp hLater
      exact ((passes_call hPace.1).mono hFirst).append (ih hPace.2 hRest)

end Scheduler

end Chip8
