import Chip8.Keys.Keypad

/-!
Presses of a keypad. An event makes at most one key go down, and only a key that was up; what waits
to be polled are the latest of these presses, as many as the keypad keeps.
-/

namespace Chip8.Keypad

/-- A keypad after a hand has pressed or released a key. -/
def react (event : KeyEvent) (keypad : Keypad) : Keypad :=
  (keypad.apply event).value

/-- The keys that are up before and held down after. -/
def pressed (before after : Keypad) : List Key :=
  (List.finRange 16).filter fun key => !before.held.get key && after.held.get key

/-- The latest presses, as many as wait at most. -/
def latest (presses : List Key) : List Key :=
  presses.drop (presses.length - capacity)

variable (keypad : Keypad) (key : Key)

theorem get_set (held : Vector Bool 16) (other : Key) (down : Bool) :
    (held.set key down key.isLt).get other = if key = other then down else held.get other := by
  change (held.set key down)[other] = if key = other then down else held[other]
  simp [Vector.getElem_set, Fin.ext_iff]

theorem pressKey_of_down (h : keypad.held.get key = true) : keypad.pressKey key = keypad :=
  if_pos h

theorem pressKey_of_up (h : keypad.held.get key = false) :
    keypad.pressKey key = ⟨keypad.held.set key true key.isLt, enqueue keypad.presses key⟩ :=
  if_neg (Bool.not_eq_true _ ▸ h)

end Chip8.Keypad
