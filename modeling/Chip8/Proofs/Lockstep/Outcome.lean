import Chip8.Machine.Execute

/-!
Outcomes of a permissive machine against those of the strict one. Where a permissive machine goes
on with a warning about memory or the call stack, the strict one stops with a fault; where it goes
on without such a warning, both do the same.
-/

namespace Chip8

/-- Whether a notice remarks on an access that a strict machine refuses. -/
def Notice.isBreach : Notice → Bool
  | .readBeyondMemory .. | .writeBeyondMemory .. | .callWithoutReturn .. | .returnWithoutCall =>
    true
  | _ => false

/-- The same machine with its strictness set; nothing else differs. -/
def Machine.withStrict (machine : Machine) (strict : Bool) : Machine :=
  { machine with config.strict := strict }

namespace Machine

variable (machine : Machine) (strict : Bool)

@[simp] theorem strict_withStrict : (machine.withStrict strict).config.strict = strict := rfl

@[simp] theorem memory_withStrict : (machine.withStrict strict).memory = machine.memory := rfl

@[simp] theorem stack_withStrict : (machine.withStrict strict).stack = machine.stack := rfl

@[simp] theorem registers_withStrict :
    (machine.withStrict strict).registers = machine.registers := rfl

@[simp] theorem awaiting_withStrict :
    (machine.withStrict strict).awaiting = machine.awaiting := rfl

end Machine

namespace Outcome

/-- Whether an action has done something that a strict machine refuses. -/
def breached (outcome : Outcome) : Bool :=
  outcome.notices.any Notice.isBreach

/-- The same outcome, ending in a machine with its strictness set. -/
def withStrict (outcome : Outcome) (strict : Bool) : Outcome :=
  { outcome with machine := outcome.machine.withStrict strict }

@[simp] theorem breached_done (machine : Machine) : (done machine).breached = false := rfl

@[simp] theorem breached_after (outcome : Outcome) (notices : List Notice) :
    (outcome.after notices).breached = (notices.any Notice.isBreach || outcome.breached) := by
  simp [breached, after]

@[simp] theorem withStrict_after (outcome : Outcome) (notices : List Notice) (strict : Bool) :
    (outcome.after notices).withStrict strict = (outcome.withStrict strict).after notices := rfl

/-- How an outcome of a permissive machine goes with that of the strict one. The permissive action
is never cut short. The strict one ends in the same way if there was no breach, and in a fault if
there was one. -/
structure Lockstep (permissive strict : Outcome) : Prop where
  stays_permissive : permissive.machine.config.strict = false
  no_fault : permissive.fault = none
  same : permissive.breached = false → strict = permissive.withStrict true
  refused : permissive.breached = true → strict.fault ≠ none

namespace Lockstep

theorem done {machine : Machine} (h : machine.config.strict = false) :
    (Outcome.done machine).Lockstep (.done (machine.withStrict true)) where
  stays_permissive := h
  no_fault := rfl
  same := fun _ => rfl
  refused := by simp

theorem of_breach {permissive strict : Outcome}
    (hStrict : permissive.machine.config.strict = false) (hFault : permissive.fault = none)
    (hBreach : permissive.breached = true) (hRefused : strict.fault ≠ none) :
    permissive.Lockstep strict where
  stays_permissive := hStrict
  no_fault := hFault
  same := by
    intro hNone
    rw [hBreach] at hNone
    contradiction
  refused := fun _ => hRefused

/-- Notices that remark on no breach may be given by both before. -/
theorem after {permissive strict : Outcome} (h : permissive.Lockstep strict)
    {notices : List Notice} (hNotices : notices.any Notice.isBreach = false) :
    (permissive.after notices).Lockstep (strict.after notices) where
  stays_permissive := h.stays_permissive
  no_fault := h.no_fault
  same := by
    intro hBreach
    rw [breached_after, hNotices, Bool.false_or] at hBreach
    rw [h.same hBreach, withStrict_after]
  refused := by
    intro hBreach
    rw [breached_after, hNotices, Bool.false_or] at hBreach
    exact h.refused hBreach

/-- Two actions one after the other go in lockstep if each of them does. After a breach in the
first one the strict machine has stopped, whatever the permissive one does then. -/
theorem andThen {permissive strict : Outcome} {next : Machine → Outcome}
    (hFirst : permissive.Lockstep strict)
    (hNext : ∀ machine, machine.config.strict = false →
      (next machine).Lockstep (next (machine.withStrict true))) :
    (permissive.andThen next).Lockstep (strict.andThen next) := by
  have hThen := hNext permissive.machine hFirst.stays_permissive
  have hPermissive : permissive.andThen next =
      (next permissive.machine).after permissive.notices := by
    simp [Outcome.andThen, hFirst.no_fault]
  rw [hPermissive]
  cases hBreach : permissive.breached with
  | false =>
      have hStrict : strict.andThen next =
          (next (permissive.machine.withStrict true)).after permissive.notices := by
        rw [hFirst.same hBreach]
        simp [Outcome.andThen, withStrict, hFirst.no_fault]
      rw [hStrict]
      exact hThen.after hBreach
  | true =>
      obtain ⟨fault, hFault⟩ := Option.ne_none_iff_exists'.mp (hFirst.refused hBreach)
      refine .of_breach hThen.stays_permissive hThen.no_fault ?_ ?_
      · rw [breached_after, show permissive.notices.any Notice.isBreach = true from hBreach]
        rfl
      · simp [Outcome.andThen, hFault]

end Lockstep

end Outcome

end Chip8
