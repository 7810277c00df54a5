import Chip8.Proofs.Machine.Aside
import Chip8.Proofs.Random.Draws

/-!
Sessions with different random numbers. Which numbers they are is only ever seen through the mask of
a word that takes one. As long as all these masks are zero, two sessions whose machines are made
for different sequences differ in nothing but the numbers that are still to come.
-/

namespace Chip8

/-- The same machine with the random numbers of a sequence, none of them taken. This is what a
machine is made with; loading a program takes none. -/
def Machine.drawing (machine : Machine) (numbers : Nat → UInt32) : Machine :=
  { machine with random := ⟨numbers, 0⟩ }

/-- The same machine with the random numbers of another sequence, and as many of them taken. -/
def Machine.renumbered (numbers : Nat → UInt32) (machine : Machine) : Machine :=
  { machine with random.numbers := numbers }

/-- The same session with the random numbers of another sequence, and as many of them taken. -/
def Session.renumbered {κ : Type} (numbers : Nat → UInt32) (session : Session κ) : Session κ :=
  { session with machine := session.machine.renumbered numbers }

namespace Machine

variable {numbers : Nat → UInt32} {machine : Machine}

/-- All but the words that take a number have nothing to do with the random numbers. -/
theorem aside_renumbered (numbers : Nat → UInt32) : Aside (renumbered numbers) where
  strict _ := rfl
  core _ := rfl
  withCore _ _ := rfl

theorem draw_renumbered (x y : Register) (rows : Fin 16) :
    (machine.renumbered numbers).draw x y rows =
      (machine.draw x y rows).mapMachine (renumbered numbers) := by
  have hFault : (machine.renumbered numbers).drawFault? rows = machine.drawFault? rows := rfl
  rw [draw, draw, hFault]
  cases machine.drawFault? rows <;> rfl

/-- A mask of zero hides the number, which is taken all the same. -/
theorem randomize_renumbered (x : Register) :
    (machine.renumbered numbers).randomize x 0 = (machine.randomize x 0).renumbered numbers := by
  simp only [randomize, UInt8.and_zero]
  rfl

/-- An instruction without a random number to show does the same with those of any sequence. -/
theorem execute_renumbered {held : UInt8 → Bool} {instruction : Instruction}
    (h : ∀ x mask, instruction = .random x mask → mask = 0) :
    (machine.renumbered numbers).execute held instruction =
      (machine.execute held instruction).mapMachine (renumbered numbers) := by
  have hAside := aside_renumbered numbers
  cases instruction with
  | ret => exact hAside.ret machine
  | call target => exact hAside.call machine _
  | skipIf condition =>
      rw [execute, execute, hAside.holds, hAside.skipWhen]
      rfl
  | arithmetic operation x y => exact congrArg Outcome.done (hAside.applyArithmetic machine rfl)
  | random x mask =>
      obtain rfl := h x mask rfl
      exact congrArg Outcome.done (randomize_renumbered x)
  | draw x y rows => exact draw_renumbered x y rows
  | decimal x => exact hAside.writeBlock machine _ _
  | store x =>
      rw [execute, execute, hAside.i, hAside.getV, hAside.writeBlock]
      apply Outcome.andThen_mapMachine
      exact congrArg Outcome.done (hAside.passBlock _ rfl x)
  | load x =>
      rw [execute, execute, hAside.i, hAside.readBlock]
      apply Outcome.andThen_mapMachine
      exact congrArg Outcome.done (hAside.passBlock _ rfl x)
  | _ => rfl

theorem step_renumbered {κ : Type} [KeyInput κ]
    (h : ∀ word, machine.upcoming? = some word → word.TakesNumber → word.low = 0) (keys : κ) :
    (machine.renumbered numbers).step keys =
      (machine.step keys).mapMachine (renumbered numbers) := by
  have hAside := aside_renumbered numbers
  refine hAside.step hAside (fun _ => rfl) (fun word instruction hUpcoming hDecode held => ?_) keys
  apply execute_renumbered
  rintro x mask rfl
  obtain ⟨hFamily, -, hMask⟩ := Word.encodes_of_decode hDecode
  rw [hMask]
  exact h word hUpcoming hFamily

end Machine

namespace Session

variable {κ ε : Type} [KeyInput κ] (react : ε → κ → κ)

/-- Whether no random number is ever shown in a session: the mask of each word that takes one is
zero. -/
def ShowsNoNumber (session : Session κ) (acts : List (Act ε)) : Prop :=
  ∀ word ∈ session.executed react acts, word.TakesNumber → word.low = 0

variable {react} {session : Session κ} {numbers : Nat → UInt32}

theorem step_renumbered (h : ∀ word, session.machine.upcoming? = some word → word.TakesNumber →
      word.low = 0) :
    (session.renumbered numbers).machine.step (session.renumbered numbers).keys =
      (session.machine.step session.keys).mapMachine (Machine.renumbered numbers) :=
  Machine.step_renumbered h session.keys

theorem act_renumbered {act : Act ε}
    (h : ∀ word, session.executed? act = some word → word.TakesNumber → word.low = 0) :
    (session.renumbered numbers).act react act = (session.act react act).renumbered numbers := by
  cases act with
  | tick => rfl
  | touch event => rfl
  | step =>
      rw [act, step_renumbered h]
      rfl

/-- A session that shows no random number goes the same way with those of any sequence. -/
theorem play_renumbered {acts : List (Act ε)} (h : session.ShowsNoNumber react acts) :
    (session.renumbered numbers).steps react acts =
        (session.steps react acts).map (Stepped.mapMachine (Machine.renumbered numbers)) ∧
      (session.renumbered numbers).play react acts =
        (session.play react acts).renumbered numbers := by
  induction acts generalizing session with
  | nil => exact ⟨rfl, rfl⟩
  | cons first rest ih =>
      have hFirst (word : Word) (hWord : session.executed? first = some word) :
          word.TakesNumber → word.low = 0 :=
        h word (List.mem_append_left _ (Option.mem_toList.mpr hWord))
      have hRest : (session.act react first).ShowsNoNumber react rest :=
        fun word hWord => h word (List.mem_append_right _ hWord)
      have hAct : (session.renumbered numbers).act react first =
          (session.act react first).renumbered numbers :=
        act_renumbered hFirst
      obtain ⟨hSteps, hPlay⟩ := ih hRest
      refine ⟨?_, by rw [play_cons, play_cons, hAct, hPlay]⟩
      rw [← hAct] at hSteps
      cases first with
      | tick => exact hSteps
      | touch event => exact hSteps
      | step => exact List.cons_eq_cons.mpr ⟨step_renumbered hFirst, hSteps⟩

/-- Whatever sequence the random numbers come from, they go to the words Cxkk, one to each of them
in the order in which they are executed, and to nothing else: Vx becomes the low byte of the number
under the mask kk, and no other act takes a number. As long as every such mask is zero, a session
with the numbers of another sequence makes the same steps, and its machine differs in nothing but
that sequence. -/
theorem numbers_go_to_draws (react : ε → κ → κ) (machine : Machine) (keys : κ)
    (numbers : Nat → UInt32) :
    let start : Session κ := ⟨machine.drawing numbers, keys⟩
    (∀ acts : List (Act ε),
      let current := start.play react acts
      let taken := start.taken react acts
      current.machine.random = ⟨numbers, taken⟩ ∧
      (∀ word, current.machine.upcoming? = some word → word.TakesNumber →
        (current.act react .step).machine.registers.getV word.x =
            (numbers taken).toUInt8 &&& word.low ∧
          (current.act react .step).machine.random = ⟨numbers, taken + 1⟩) ∧
      ∀ act, (∀ word, current.executed? act = some word → ¬ word.TakesNumber) →
        (current.act react act).machine.random = current.machine.random) ∧
    ∀ (other : Nat → UInt32) (acts : List (Act ε)), start.ShowsNoNumber react acts →
      let otherStart : Session κ := ⟨machine.drawing other, keys⟩
      let renumber := Machine.renumbered other
      otherStart.steps react acts = (start.steps react acts).map (Stepped.mapMachine renumber) ∧
        otherStart.play react acts =
          ⟨renumber (start.play react acts).machine, (start.play react acts).keys⟩ := by
  intro start
  have hRandom (acts : List (Act ε)) : (start.play react acts).machine.random =
      ⟨numbers, start.taken react acts⟩ :=
    (random_play react start acts).trans (RandomSource.skip_eq numbers _)
  refine ⟨fun acts => ⟨hRandom acts, fun word hUpcoming hTakes => ⟨?_, ?_⟩, fun act hNone => ?_⟩,
    fun other acts hShows => ?_⟩
  · rw [act, Machine.getV_step_of_takesNumber hUpcoming hTakes, hRandom]
  · rw [act, Machine.random_step_of_takesNumber hUpcoming hTakes, hRandom]
    rfl
  · exact random_act_of_not_takesNumber react hNone
  · exact play_renumbered hShows

/-- A seed stands for a sequence like any other. -/
example (machine : Machine) (seed : UInt64) :
    machine.drawing (RandomSource.ofSeed seed).numbers =
      { machine with random := .ofSeed seed } := rfl

end Session

end Chip8
