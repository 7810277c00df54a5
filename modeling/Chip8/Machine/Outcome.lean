import Chip8.Machine

/-!
Outcomes. An action on a machine ends in a machine, the notices given on the way and, if it was
cut short, a fault. What happened before the fault stays.
-/

namespace Chip8

/-- What an action on a machine ended in. -/
structure Outcome where
  machine : Machine
  notices : List Notice
  /-- The fault that cut the action short. -/
  fault : Option Fault

namespace Outcome

/-- Ends in a machine without anything to remark on. -/
def done (machine : Machine) : Outcome := ⟨machine, [], none⟩

/-- Is cut short by a fault. -/
def fail (machine : Machine) (fault : Fault) : Outcome := ⟨machine, [], some fault⟩

/-- An outcome after earlier notices. -/
def after (outcome : Outcome) (notices : List Notice) : Outcome :=
  { outcome with notices := notices ++ outcome.notices }

/-- Goes on with another action, unless a fault has occurred. -/
def andThen (outcome : Outcome) (next : Machine → Outcome) : Outcome :=
  match outcome.fault with
  | some _ => outcome
  | none => (next outcome.machine).after outcome.notices

@[simp] theorem done_andThen (machine : Machine) (next : Machine → Outcome) :
    (done machine).andThen next = next machine := rfl

@[simp] theorem fail_andThen (machine : Machine) (fault : Fault) (next : Machine → Outcome) :
    (fail machine fault).andThen next = fail machine fault := rfl

@[simp] theorem andThen_done (outcome : Outcome) : outcome.andThen done = outcome := by
  obtain ⟨machine, notices, _ | fault⟩ := outcome <;> simp [andThen, after, done]

end Outcome

end Chip8
