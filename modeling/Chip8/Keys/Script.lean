import Chip8.Keys

/-!
Scripted keys: which codes are held is fixed, and each poll is answered by the next line of a
script. It stands in for a keypad where a run has to be repeatable.
-/

namespace Chip8

/-- The codes held down throughout, and the answers to polls; after the last one there is none. -/
structure KeyScript where
  held : List UInt8
  answers : List (Option UInt8)
  deriving DecidableEq

namespace KeyScript

def poll (script : KeyScript) : Option UInt8 × KeyScript :=
  match script.answers with
  | [] => (none, script)
  | answer :: rest => (answer, { script with answers := rest })

instance : KeyInput KeyScript where
  isHeld script code := script.held.contains code
  poll := poll
  backlog script := script.answers.length
  backlog_poll_lt script code h := by
    cases hAnswers : script.answers with
    | nil => simp [poll, hAnswers] at h
    | cons answer rest => simp [poll, hAnswers]

end KeyScript

end Chip8
