import Chip8.Proofs.Schedule.Calls
import Chip8.Proofs.Schedule.Course
import Chip8.Proofs.Session

/-!
What a scheduler does to its machine. It is told to go on to moments, and a host touches the keys in
between. For the machine and the keys this is a session: every tick that is processed is one act.
-/

namespace Chip8

/-- What can be asked of a scheduler and its keys; `ε` are the ways in which a host touches them. -/
inductive Order (ε : Type)
  | advance (now : Nat)
  | touch (event : ε)

/-- A tick as what happens to the machine of a scheduler. -/
def Tick.act {ε : Type} : Tick → Act ε
  | .instruction => .step
  | .timer => .tick

/-- A scheduler and the keys that it asks. -/
structure Conducted (κ : Type) where
  scheduler : Scheduler
  keys : κ

/-- The machine of a scheduler and the keys. -/
def Conducted.session {κ : Type} (conducted : Conducted κ) : Session κ :=
  ⟨conducted.scheduler.machine, conducted.keys⟩

namespace Progress

variable {κ : Type} (progress : Progress κ)

/-- The scheduler and the keys that progress has led to. -/
def conducted : Conducted κ := ⟨progress.scheduler, progress.keys⟩

/-- The machine and the keys that progress has led to. -/
def session : Session κ := ⟨progress.scheduler.machine, progress.keys⟩

theorem session_conducted : progress.conducted.session = progress.session := rfl

theorem session_start (scheduler : Scheduler) (keys : κ) :
    (start scheduler keys).session = ⟨scheduler.machine, keys⟩ := rfl

theorem session_refreshed (now : Nat) : (progress.refreshed now).session = progress.session := by
  by_cases hLate : progress.scheduler.timeline.nextDeadline + maxLag < now
  · rw [refreshed_of_lt hLate, session, Scheduler.restart, session]
  · rw [refreshed_of_le (Nat.not_lt.mp hLate)]

end Progress

namespace Conducted

variable {κ ε : Type} [KeyInput κ]

def order (react : ε → κ → κ) (conducted : Conducted κ) : Order ε → Conducted κ
  | .advance now => (conducted.scheduler.advance now conducted.keys).conducted
  | .touch event => { conducted with keys := react event conducted.keys }

/-- The acts that an order comes to. -/
def actsOf (conducted : Conducted κ) : Order ε → List (Act ε)
  | .advance now =>
    (((Progress.start conducted.scheduler conducted.keys).refreshed now).course now).map
      fun (_, tick) => tick.act
  | .touch event => [.touch event]

/-- A scheduler and the keys after orders, one after another. -/
def conduct (react : ε → κ → κ) (conducted : Conducted κ) : List (Order ε) → Conducted κ
  | [] => conducted
  | first :: rest => (conducted.order react first).conduct react rest

/-- The acts that orders come to, one after another. -/
def acts (react : ε → κ → κ) (conducted : Conducted κ) : List (Order ε) → List (Act ε)
  | [] => []
  | first :: rest => conducted.actsOf first ++ (conducted.order react first).acts react rest

end Conducted

namespace Progress

variable {κ ε : Type} [KeyInput κ]

theorem session_perform (react : ε → κ → κ) (progress : Progress κ) (tick : Tick) :
    (progress.perform tick).session = progress.session.act react tick.act := by
  cases tick with
  | instruction => rfl
  | timer =>
      rw [session, machine_perform_timer]
      rfl

/-- Catching up plays the acts of its course. -/
theorem session_catchUp (react : ε → κ → κ) (progress : Progress κ) (now : Nat) :
    (progress.catchUp now).session =
      progress.session.play react ((progress.course now).map fun (_, tick) => tick.act) := by
  refine course_induction (motive := fun progress course final =>
    final.session = progress.session.play react (course.map fun (_, tick) => tick.act)) ?_ ?_
    progress
  · intro progress _
    rfl
  · intro progress tick rest final _ hRest
    rw [hRest, session_perform react, List.map_cons, Session.play_cons]

end Progress

namespace Conducted

variable {κ ε : Type} [KeyInput κ] (react : ε → κ → κ) (conducted : Conducted κ)

theorem session_order (order : Order ε) :
    (conducted.order react order).session =
      conducted.session.play react (conducted.actsOf order) := by
  cases order with
  | touch event => rfl
  | advance now =>
      rw [order, Progress.session_conducted, Scheduler.advance, Progress.advance_eq_catchUp,
        Progress.session_catchUp react, Progress.session_refreshed, Progress.session_start, actsOf,
        session]

/-- Whatever is asked of a scheduler, its machine and the keys go through a session. -/
theorem session_conduct (orders : List (Order ε)) :
    (conducted.conduct react orders).session =
      conducted.session.play react (conducted.acts react orders) := by
  induction orders generalizing conducted with
  | nil => rfl
  | cons first rest ih => rw [conduct, acts, ih, session_order, Session.play_append]

end Conducted

end Chip8
