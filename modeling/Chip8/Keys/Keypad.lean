import Chip8.Keys
import Chip8.Notice

/-!
The keypad: sixteen keys, each up or held down, and the presses that nobody has polled yet. A
press counts when its key was up before. The oldest press is dropped when too many wait.
-/

namespace Chip8

abbrev Key := Fin 16

/-- The key that a code names, if it names one. -/
def Key.ofCode? (code : UInt8) : Option Key :=
  if h : code.toNat < 16 then some ⟨code.toNat, h⟩ else none

def Key.code (key : Key) : UInt8 :=
  UInt8.ofNat key.val

/-- What a hand can do to a keypad; codes are taken as they come. -/
inductive KeyEvent
  | press (code : UInt8)
  | release (code : UInt8)
  deriving DecidableEq

/-- The keys that are held down, and the presses not yet polled, oldest first. -/
structure Keypad where
  held : Vector Bool 16
  presses : List Key
  deriving DecidableEq

namespace Keypad

/-- How many presses wait at most. -/
def capacity : Nat := 16

def initial : Keypad := ⟨Vector.replicate 16 false, []⟩

/-- Appends a press; one that waits too long makes room for it. -/
def enqueue (presses : List Key) (key : Key) : List Key :=
  (if presses.length = capacity then presses.drop 1 else presses) ++ [key]

/-- Presses a key. Nothing happens if it is held already. -/
def pressKey (keypad : Keypad) (key : Key) : Keypad :=
  if keypad.held[key] then keypad
  else ⟨keypad.held.set key true, enqueue keypad.presses key⟩

def releaseKey (keypad : Keypad) (key : Key) : Keypad :=
  { keypad with held := keypad.held.set key false }

/-- Presses or releases the key that a code names; an unknown code is remarked on. -/
def apply (keypad : Keypad) : KeyEvent → Logged Keypad
  | .press code =>
    match Key.ofCode? code with
    | some key => pure (keypad.pressKey key)
    | none => ⟨keypad, [.unknownKey code]⟩
  | .release code =>
    match Key.ofCode? code with
    | some key => pure (keypad.releaseKey key)
    | none => ⟨keypad, [.unknownKey code]⟩

def applyAll (keypad : Keypad) : List KeyEvent → Logged Keypad
  | [] => pure keypad
  | event :: rest => do
    let keypad ← keypad.apply event
    keypad.applyAll rest

def isHeld (keypad : Keypad) (code : UInt8) : Bool :=
  match Key.ofCode? code with
  | some key => keypad.held[key]
  | none => false

def poll (keypad : Keypad) : Option UInt8 × Keypad :=
  match keypad.presses with
  | [] => (none, keypad)
  | key :: rest => (some key.code, { keypad with presses := rest })

instance : KeyInput Keypad where
  isHeld := isHeld
  poll := poll
  backlog keypad := keypad.presses.length
  backlog_poll_lt keypad code h := by
    cases hPresses : keypad.presses with
    | nil => simp [poll, hPresses] at h
    | cons key rest => simp [poll, hPresses]

end Keypad

end Chip8
