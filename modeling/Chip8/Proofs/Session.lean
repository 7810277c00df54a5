import Chip8.Machine.Step

/-!
Sessions. A machine steps, its timers tick and a host touches the keys, in any order and any number
of times. A step that ends in a fault does not end the session.
-/

namespace Chip8

/-- What happens in a session; `ε` are the ways in which a host touches the keys. -/
inductive Act (ε : Type)
  | step
  | tick
  | touch (event : ε)

def Act.isTick {ε : Type} : Act ε → Bool
  | .tick => true
  | _ => false

/-- A machine and the keys that it asks. -/
structure Session (κ : Type) where
  machine : Machine
  keys : κ

namespace Session

variable {κ ε : Type} [KeyInput κ]

/-- A session after one more act; `react` says how the keys change when a host touches them. -/
def act (react : ε → κ → κ) (session : Session κ) : Act ε → Session κ
  | .step =>
    let stepped := session.machine.step session.keys
    ⟨stepped.outcome.machine, stepped.keys⟩
  | .tick => { session with machine := session.machine.tickTimers }
  | .touch event => { session with keys := react event session.keys }

def play (react : ε → κ → κ) (session : Session κ) (acts : List (Act ε)) : Session κ :=
  acts.foldl (act react) session

/-- The steps of a session, each with what it ended in. -/
def steps (react : ε → κ → κ) (session : Session κ) : List (Act ε) → List (Stepped κ)
  | [] => []
  | .step :: rest =>
    session.machine.step session.keys :: (session.act react .step).steps react rest
  | act :: rest => (session.act react act).steps react rest

variable (react : ε → κ → κ) (session : Session κ)

@[simp] theorem play_nil : session.play react [] = session := rfl

@[simp] theorem play_cons (first : Act ε) (rest : List (Act ε)) :
    session.play react (first :: rest) = (session.act react first).play react rest := rfl

theorem play_append (earlier later : List (Act ε)) :
    session.play react (earlier ++ later) = (session.play react earlier).play react later :=
  List.foldl_append

/-- What every act keeps, every session keeps. -/
theorem play_keeps {motive : Session κ → Prop}
    (hAct : ∀ session act, motive session → motive (session.act react act))
    (hStart : motive session) (acts : List (Act ε)) : motive (session.play react acts) := by
  induction acts generalizing session with
  | nil => exact hStart
  | cons first rest ih => exact ih _ (hAct _ _ hStart)

end Session

end Chip8
