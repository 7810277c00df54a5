import Chip8.Keys
import Mathlib.Data.Nat.Find

/-!
Polling until no press is found. Whatever is polled, it can serve as key input exactly if polls come
to an end from any keys on. Draining such an input is a loop of finitely many polls.
-/

namespace Chip8.KeyInput

section

variable {κ : Type} (poll : κ → Option UInt8 × κ)

/-- The keys after a number of polls. -/
def afterPolls : Nat → κ → κ
  | 0, keys => keys
  | n + 1, keys => afterPolls n (poll keys).2

/-- Whether polls come to an end: from any keys on, one of them finds no press. -/
def ComesToEnd : Prop :=
  ∀ keys, ∃ n, (poll (afterPolls poll n keys)).1 = none

/-- Polls made one after another until one finds no press: the presses found, and what remains. -/
inductive PollsUntilNone : κ → List UInt8 → κ → Prop where
  | last {keys : κ} (found : (poll keys).1 = none) : PollsUntilNone keys [] (poll keys).2
  | press {keys final : κ} {code : UInt8} {codes : List UInt8}
      (found : (poll keys).1 = some code) (rest : PollsUntilNone (poll keys).2 codes final) :
      PollsUntilNone keys (code :: codes) final

variable {poll}

/-- Key input made of any way of polling that comes to an end. The polls that still find a press are
counted up to the first one that finds none. -/
@[reducible] def ofPoll (isHeld : κ → UInt8 → Bool) (h : ComesToEnd poll) : KeyInput κ where
  isHeld := isHeld
  poll := poll
  backlog keys := Nat.find (h keys)
  backlog_poll_lt keys code hFound := by
    have hLast : (poll (afterPolls poll (Nat.find (h keys)) keys)).1 = none := Nat.find_spec (h keys)
    cases hPolls : Nat.find (h keys) with
    | zero =>
        rw [hPolls, afterPolls, hFound] at hLast
        cases hLast
    | succ n =>
        rw [hPolls, afterPolls] at hLast
        exact Nat.lt_succ_of_le (Nat.find_min' (h (poll keys).2) hLast)

end

variable {κ : Type} [KeyInput κ]

/-- Polling any key input comes to an end. -/
theorem comesToEnd_poll : ComesToEnd (poll (κ := κ)) := by
  intro keys
  induction keys using drain.induct with
  | case1 keys hFound => exact ⟨0, hFound⟩
  | case2 keys code hFound hLess ih =>
      obtain ⟨n, hLast⟩ := ih
      exact ⟨n + 1, hLast⟩

/-- Draining polls until no press is found. -/
theorem pollsUntilNone_drain (keys : κ) :
    PollsUntilNone poll keys (drain keys).1 (drain keys).2 := by
  fun_induction drain keys with
  | case1 keys hFound => exact .last hFound
  | case2 keys code hFound hLess rest ih => exact .press hFound ih

end Chip8.KeyInput
