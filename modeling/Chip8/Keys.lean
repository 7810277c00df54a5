/-!
Key input as a machine sees it: whether a key is held, and presses that can be polled one by one.
Where they come from is open. Polling never waits, and it comes to an end: after finitely many
presses a poll finds none.
-/

namespace Chip8

/-- Something that can be asked for keys. Polling may change it even if it finds nothing. -/
class KeyInput (κ : Type) where
  /-- Whether the key with a code is held down. -/
  isHeld : κ → UInt8 → Bool
  /-- The next press, if there is one, and what remains. -/
  poll : κ → Option UInt8 × κ
  /-- A bound on the presses that polling can still find. -/
  backlog : κ → Nat
  backlog_poll_lt : ∀ (keys : κ) (code : UInt8),
    (poll keys).1 = some code → backlog (poll keys).2 < backlog keys

namespace KeyInput

variable {κ : Type} [KeyInput κ]

/-- Polls until there is no press left: the presses found, and what remains. -/
def drain (keys : κ) : List UInt8 × κ :=
  match h : (poll keys).1 with
  | none => ([], (poll keys).2)
  | some code =>
    have := backlog_poll_lt keys code h
    let rest := drain (poll keys).2
    (code :: rest.1, rest.2)
termination_by backlog keys

/-- Either of two inputs, whichever is there. -/
instance {α β : Type} [KeyInput α] [KeyInput β] : KeyInput (α ⊕ β) where
  isHeld
    | .inl keys => isHeld keys
    | .inr keys => isHeld keys
  poll
    | .inl keys => ((poll keys).1, .inl (poll keys).2)
    | .inr keys => ((poll keys).1, .inr (poll keys).2)
  backlog
    | .inl keys => backlog keys
    | .inr keys => backlog keys
  backlog_poll_lt
    | .inl keys => backlog_poll_lt keys
    | .inr keys => backlog_poll_lt keys

end KeyInput

end Chip8
