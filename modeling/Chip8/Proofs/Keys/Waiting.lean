import Chip8.Proofs.Keys.Presses
import Chip8.Proofs.Machine.Step
import Chip8.Proofs.Session

/-!
Waiting for a key. A wait begins with no press left over, and the first step that finds a press ends
it. Until then steps change nothing at all, and only the timers go on.
-/

namespace Chip8

open Keypad (latest pressed react)

namespace Machine

variable {machine : Machine} {x : Register} {keypad : Keypad}

end Machine

namespace Session

/-- The keys that go down in the course of a session, in order. -/
def presses (session : Session Keypad) : List (Act KeyEvent) → List Key
  | [] => []
  | first :: rest =>
    pressed session.keys (session.act react first).keys ++ (session.act react first).presses rest

end Session

end Chip8
