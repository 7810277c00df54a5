import Chip8.Proofs.Machine.Successor
import Chip8.Proofs.Session

/-!
Where random numbers go. A step that executes Cxkk takes the next number of the sequence, whatever
its mask; no other step takes one, and neither a timer tick nor the keys do. The position in the
sequence therefore counts the words Cxkk that have been executed.
-/

namespace Chip8

/-- Whether a word takes a random number. -/
def Word.TakesNumber (word : Word) : Prop :=
  word.family = 0xC

instance (word : Word) : Decidable word.TakesNumber :=
  inferInstanceAs (Decidable (_ = _))

namespace RandomSource

/-- A source after some more numbers have been taken. -/
def skip (source : RandomSource) (n : Nat) : RandomSource :=
  { source with position := source.position + n }

theorem skip_eq (numbers : Nat → UInt32) (n : Nat) : skip ⟨numbers, 0⟩ n = ⟨numbers, n⟩ := by
  rw [skip, Nat.zero_add]

theorem skip_skip (source : RandomSource) (m n : Nat) :
    (source.skip m).skip n = source.skip (m + n) := by
  rw [skip, skip, skip, Nat.add_assoc]

end RandomSource

namespace Machine

variable {κ : Type} [KeyInput κ] {machine : Machine} {word : Word}

theorem machine_step_of_takesNumber (h : machine.upcoming? = some word) (hTakes : word.TakesNumber)
    (keys : κ) :
    (machine.step keys).outcome.machine = (machine.fetched word).randomize word.x word.low := by
  have hEncodes : word.Encodes (.random word.x word.low) := ⟨hTakes, rfl, rfl⟩
  exact machine_step_of_encodes h hEncodes keys

theorem random_step_of_takesNumber (h : machine.upcoming? = some word) (hTakes : word.TakesNumber)
    (keys : κ) : (machine.step keys).outcome.machine.random = machine.random.skip 1 := by
  rw [machine_step_of_takesNumber h hTakes]
  rfl

theorem getV_step_of_takesNumber (h : machine.upcoming? = some word) (hTakes : word.TakesNumber)
    (keys : κ) :
    (machine.step keys).outcome.machine.registers.getV word.x =
      (machine.random.numbers machine.random.position).toUInt8 &&& word.low := by
  rw [machine_step_of_takesNumber h hTakes]
  exact (Registers.getV_setV ..).trans (if_pos rfl)

/-- A step takes no number unless its word does, be it cut short, without a word or passed over. -/
theorem random_step_of_not_takesNumber
    (h : ∀ word, machine.upcoming? = some word → ¬ word.TakesNumber) (keys : κ) :
    (machine.step keys).outcome.machine.random = machine.random := by
  cases hUpcoming : machine.upcoming? with
  | some word =>
      apply Classical.byContradiction
      intro hChanged
      exact h word hUpcoming ((footprint_step hUpcoming keys).1.random hChanged)
  | none =>
      obtain ⟨v, awaiting, hFinal⟩ := machine_step_of_upcoming?_eq_none hUpcoming keys
      rw [hFinal]

end Machine

namespace Session

variable {κ ε : Type} [KeyInput κ] (react : ε → κ → κ)

/-- The word that an act of a session executes. -/
def executed? (session : Session κ) : Act ε → Option Word
  | .step => session.machine.upcoming?
  | _ => none

/-- The words that are executed in a session, in order. -/
def executed (session : Session κ) : List (Act ε) → List Word
  | [] => []
  | act :: rest => (session.executed? act).toList ++ (session.act react act).executed rest

/-- How many random numbers are taken in a session. -/
def taken (session : Session κ) (acts : List (Act ε)) : Nat :=
  (session.executed react acts).countP (·.TakesNumber)

theorem taken_cons (session : Session κ) (act : Act ε) (rest : List (Act ε)) :
    session.taken react (act :: rest) =
      (session.executed? act).toList.countP (·.TakesNumber) +
        (session.act react act).taken react rest :=
  List.countP_append

theorem random_act_of_takesNumber {session : Session κ} {act : Act ε} {word : Word}
    (h : session.executed? act = some word) (hTakes : word.TakesNumber) :
    (session.act react act).machine.random = session.machine.random.skip 1 := by
  cases act with
  | step => exact Machine.random_step_of_takesNumber h hTakes session.keys
  | _ => cases h

theorem random_act_of_not_takesNumber {session : Session κ} {act : Act ε}
    (h : ∀ word, session.executed? act = some word → ¬ word.TakesNumber) :
    (session.act react act).machine.random = session.machine.random := by
  cases act with
  | step => exact Machine.random_step_of_not_takesNumber h session.keys
  | _ => rfl

theorem random_act (session : Session κ) (act : Act ε) :
    (session.act react act).machine.random =
      session.machine.random.skip ((session.executed? act).toList.countP (·.TakesNumber)) := by
  cases hExecuted : session.executed? act with
  | none => exact random_act_of_not_takesNumber react (by simp [hExecuted])
  | some word =>
      rw [Option.toList_some, List.countP_singleton]
      by_cases hTakes : word.TakesNumber
      · rw [if_pos (decide_eq_true hTakes), random_act_of_takesNumber react hExecuted hTakes]
      · rw [if_neg (mt of_decide_eq_true hTakes)]
        apply random_act_of_not_takesNumber
        rintro executed hWord
        rwa [← Option.some.inj (hExecuted.symm.trans hWord)]

/-- The sequence stays, and the position in it moves by one for each number that is taken. -/
theorem random_play (session : Session κ) (acts : List (Act ε)) :
    (session.play react acts).machine.random =
      session.machine.random.skip (session.taken react acts) := by
  induction acts generalizing session with
  | nil => rfl
  | cons act rest ih =>
      rw [play_cons, ih, random_act, RandomSource.skip_skip, taken_cons]

end Session

end Chip8
