import Chip8.Keys.Keypad
import Chip8.Proofs.CallStack.Live
import Chip8.Proofs.Machine.Step
import Chip8.Proofs.Machine.Transfers

/-!
Refusals. A strict machine refuses to go beyond memory and beyond the call stack. What it leaves
behind depends on what it refuses: a fetch changes nothing, a call, a return and a sprite only take
the word in, and a block transfer has got as far as memory reaches.
-/

namespace Chip8

/-- Whether an outcome was cut short by a fault, with a machine left behind. -/
def Outcome.CutShort (outcome : Outcome) (fault : Fault) (final : Machine) : Prop :=
  outcome.fault = some fault ∧ outcome.machine = final

/-- How a strict machine refuses a step: the fault, and the machine left behind. -/
inductive Machine.Refuses (machine : Machine) : Fault → Machine → Prop
  | fetch : machine.awaiting = none → 0xFFE < machine.registers.pc.toNat →
      machine.Refuses (.outOfRange (UInt16.ofNat (max machine.registers.pc.toNat 0x1000))) machine
  | call {word : Word} : machine.upcoming? = some word → word.family = 0x2 →
      ¬(0 ≤ machine.registers.sp.toInt + 1 ∧ machine.registers.sp.toInt + 1 ≤ 15) →
      machine.Refuses (.stackOverflow (machine.registers.pc + 2)) (machine.fetched word)
  | ret : machine.upcoming? = some 0x00EE →
      ¬(0 ≤ machine.registers.sp.toInt ∧ machine.registers.sp.toInt ≤ 15) →
      machine.Refuses .stackUnderflow (machine.fetched 0x00EE)
  | draw {word : Word} : machine.upcoming? = some word → word.family = 0xD → 0 < word.last.val →
      0xFFF < machine.registers.i.toNat + word.last.val - 1 →
      machine.Refuses
        (.outOfRange (UInt16.ofNat (min (machine.registers.i.toNat + word.last.val - 1) 0xFFFF)))
        (machine.fetched word)
  | store {word : Word} : machine.upcoming? = some word → word.family = 0xF → word.low = 0x55 →
      0xFFF < machine.registers.i.toNat + word.x.val →
      machine.Refuses (.outOfRange (UInt16.ofNat (max machine.registers.i.toNat 0x1000)))
        { machine.fetched word with
          memory := machine.memory.overlay machine.registers.i.toNat
            ((upTo word.x).map machine.registers.getV) }
  | decimal {word : Word} : machine.upcoming? = some word → word.family = 0xF → word.low = 0x33 →
      0xFFF < machine.registers.i.toNat + 2 →
      machine.Refuses (.outOfRange (UInt16.ofNat (max machine.registers.i.toNat 0x1000)))
        { machine.fetched word with
          memory := machine.memory.overlay machine.registers.i.toNat
            (decimalDigits (machine.registers.getV word.x)) }
  | load {word : Word} : machine.upcoming? = some word → word.family = 0xF → word.low = 0x65 →
      0xFFF < machine.registers.i.toNat + word.x.val →
      machine.Refuses (.outOfRange (UInt16.ofNat (max machine.registers.i.toNat 0x1000)))
        { machine.fetched word with
          registers := (machine.fetched word).registers.loadedFrom machine.memory
            machine.registers.i.toNat word.x }

namespace Outcome

variable {outcome : Outcome} {machine final : Machine} {fault fault' : Fault}

theorem not_cutShort_of_fault_eq_none (h : outcome.fault = none) :
    ¬ outcome.CutShort fault final := by
  intro hCut
  rw [hCut.1] at h
  cases h

theorem cutShort_fail_iff :
    (fail machine fault').CutShort fault final ↔ fault = fault' ∧ final = machine := by
  simp [CutShort, fail, eq_comm]

/-- What is done only without a fault does not matter where there is one. -/
theorem cutShort_andThen_done_iff {next : Machine → Machine} :
    (outcome.andThen fun machine => .done (next machine)).CutShort fault final ↔
      outcome.CutShort fault final := by
  obtain ⟨machine, notices, _ | _⟩ := outcome <;> simp [CutShort, andThen, after, done]

end Outcome

namespace Machine

variable {machine final : Machine} {fault : Fault}

theorem value_fetch (machine : Machine) :
    machine.fetch.value = (machine.readByte machine.registers.pc).value.bind fun high =>
      (machine.readByte (machine.registers.pc + 1)).value.map (Word.ofBytes high) := by
  rw [fetch, Logged.value_bind]
  cases (machine.readByte machine.registers.pc).value <;> rfl

theorem value_fetch_of_lt (hStrict : machine.config.strict = true)
    (h : 0xFFE < machine.registers.pc.toNat) :
    machine.fetch.value =
      .error (.outOfRange (UInt16.ofNat (max machine.registers.pc.toNat 0x1000))) := by
  rw [value_fetch, value_readByte, value_readByte]
  by_cases hOut : 4096 ≤ machine.registers.pc.toNat
  · rw [if_pos ⟨hStrict, hOut⟩, Nat.max_eq_left hOut, UInt16.ofNat_toNat]
    rfl
  · -- Only the second byte of the word is behind memory.
    have hLast : machine.registers.pc = 4095 := UInt16.toNat_inj.mp (show _ = 4095 by omega)
    rw [if_neg (hOut ·.2), hLast, if_pos ⟨hStrict, by decide⟩]
    rfl

theorem value_fetch_of_le (h : machine.registers.pc.toNat ≤ 0xFFE) :
    ∃ word, machine.fetch.value = .ok word := by
  have hNext : (machine.registers.pc + 1).toNat = machine.registers.pc.toNat + 1 :=
    Memory.toNat_add_one (by omega)
  rw [value_fetch, value_readByte, value_readByte, hNext, if_neg (by omega), if_neg (by omega)]
  exact ⟨_, rfl⟩

theorem call_cutShort_iff (hStrict : machine.config.strict = true) (address : UInt16) :
    (machine.call address).CutShort fault final ↔
      ¬(0 ≤ machine.registers.sp.toInt + 1 ∧ machine.registers.sp.toInt + 1 ≤ 15) ∧
        fault = .stackOverflow machine.registers.pc ∧ final = machine := by
  rw [← CallStack.isSlot_add_one_iff]
  by_cases hSlot : CallStack.IsSlot (machine.registers.sp + 1)
  · rw [call_of_push_eq_ok (CallStack.push_of_isSlot hSlot ..)]
    exact iff_of_false (Outcome.not_cutShort_of_fault_eq_none rfl) fun h => h.1 hSlot
  · rw [call_of_push_eq_error (CallStack.push_of_not_isSlot hSlot ..)]
    simp [hStrict, hSlot, Outcome.cutShort_fail_iff]

theorem ret_cutShort_iff (hStrict : machine.config.strict = true) :
    machine.ret.CutShort fault final ↔
      ¬(0 ≤ machine.registers.sp.toInt ∧ machine.registers.sp.toInt ≤ 15) ∧
        fault = .stackUnderflow ∧ final = machine := by
  have hRange : (0 ≤ machine.registers.sp.toInt ∧ machine.registers.sp.toInt ≤ 15) ↔
      CallStack.IsSlot machine.registers.sp := and_congr_right' Int.lt_add_one_iff.symm
  rw [hRange]
  by_cases hSlot : CallStack.IsSlot machine.registers.sp
  · rw [ret_of_pop_eq_ok (CallStack.pop_of_isSlot hSlot _)]
    exact iff_of_false (Outcome.not_cutShort_of_fault_eq_none rfl) fun h => h.1 hSlot
  · rw [ret_of_pop_eq_error (CallStack.pop_of_not_isSlot hSlot _)]
    simp [hStrict, hSlot, Outcome.cutShort_fail_iff]

theorem drawFault?_of_strict (hStrict : machine.config.strict = true) (rows : Fin 16) :
    machine.drawFault? rows =
      if 0 < rows.val ∧ 0xFFF < machine.registers.i.toNat + rows.val - 1 then
        some (.outOfRange (spriteEnd machine.registers.i rows))
      else none := by
  have hEnd : (spriteEnd machine.registers.i rows).toNat =
      min (machine.registers.i.toNat + rows.val - 1) 0xFFFF :=
    UInt16.toNat_ofNat_of_lt (show _ < 65536 by omega)
  rw [drawFault?, Memory.tryGet, hEnd]
  by_cases hOut : 0xFFF < machine.registers.i.toNat + rows.val - 1
  · rw [dif_neg (by omega)]
    simp [hStrict, hOut]
  · rw [dif_pos (by omega)]
    simp [hOut]

theorem draw_cutShort_iff (hStrict : machine.config.strict = true) (x y : Register)
    (rows : Fin 16) :
    (machine.draw x y rows).CutShort fault final ↔
      (0 < rows.val ∧ 0xFFF < machine.registers.i.toNat + rows.val - 1) ∧
        fault = .outOfRange (spriteEnd machine.registers.i rows) ∧ final = machine := by
  rw [draw, drawFault?_of_strict hStrict]
  by_cases hOut : 0 < rows.val ∧ 0xFFF < machine.registers.i.toNat + rows.val - 1
  · rw [if_pos hOut]
    simp [hOut, Outcome.cutShort_fail_iff]
  · rw [if_neg hOut]
    exact iff_of_false (Outcome.not_cutShort_of_fault_eq_none rfl) fun h => hOut h.1

theorem IsBounded.cutShort_accessEach_iff {α : Type} {access : Machine → UInt16 → α → Outcome}
    (h : IsBounded access) (hStrict : machine.config.strict = true) {address : UInt16}
    {items : List α} {last : Nat} (hLength : items.length = last + 1) :
    (accessEach access machine address items).CutShort fault final ↔
      0xFFF < address.toNat + last ∧
        fault = .outOfRange (UInt16.ofNat (max address.toNat 0x1000)) ∧
        final = (accessEach access machine address items).machine := by
  have hSome : items ≠ [] := List.ne_nil_of_length_pos (by omega)
  have hFault := h.fault_accessEach machine address items
  by_cases hOut : 0xFFF < address.toNat + last
  · rw [if_pos ⟨hStrict, hSome, by omega⟩] at hFault
    simp [Outcome.CutShort, hFault, hOut, eq_comm]
  · rw [if_neg (by omega)] at hFault
    exact iff_of_false (Outcome.not_cutShort_of_fault_eq_none hFault) fun h => hOut h.1

theorem writeBlock_cutShort_iff (hStrict : machine.config.strict = true) {address : UInt16}
    {bytes : List UInt8} {last : Nat} (hLength : bytes.length = last + 1) :
    (machine.writeBlock address bytes).CutShort fault final ↔
      0xFFF < address.toNat + last ∧
        fault = .outOfRange (UInt16.ofNat (max address.toNat 0x1000)) ∧
        final = { machine with memory := machine.memory.overlay address.toNat bytes } := by
  rw [← machine.machine_writeBlock_eq_overlay (.inl hStrict), writeBlock_eq_accessEach]
  exact isBounded_writeByte.cutShort_accessEach_iff hStrict hLength

theorem decimal_cutShort_iff (hStrict : machine.config.strict = true) (held : UInt8 → Bool)
    (x : Register) :
    (machine.execute held (.decimal x)).CutShort fault final ↔
      0xFFF < machine.registers.i.toNat + 2 ∧
        fault = .outOfRange (UInt16.ofNat (max machine.registers.i.toNat 0x1000)) ∧
        final = { machine with
          memory := machine.memory.overlay machine.registers.i.toNat
            (decimalDigits (machine.registers.getV x)) } :=
  writeBlock_cutShort_iff hStrict rfl

theorem store_cutShort_iff (hStrict : machine.config.strict = true) (held : UInt8 → Bool)
    (x : Register) :
    (machine.execute held (.store x)).CutShort fault final ↔
      0xFFF < machine.registers.i.toNat + x.val ∧
        fault = .outOfRange (UInt16.ofNat (max machine.registers.i.toNat 0x1000)) ∧
        final = { machine with
          memory := machine.memory.overlay machine.registers.i.toNat
            ((upTo x).map machine.registers.getV) } := by
  rw [execute, Outcome.cutShort_andThen_done_iff]
  exact writeBlock_cutShort_iff hStrict (by rw [List.length_map, length_upTo])

theorem load_cutShort_iff (hStrict : machine.config.strict = true) (held : UInt8 → Bool)
    (x : Register) :
    (machine.execute held (.load x)).CutShort fault final ↔
      0xFFF < machine.registers.i.toNat + x.val ∧
        fault = .outOfRange (UInt16.ofNat (max machine.registers.i.toNat 0x1000)) ∧
        final = { machine with
          registers :=
            machine.registers.loadedFrom machine.memory machine.registers.i.toNat x } := by
  rw [execute, Outcome.cutShort_andThen_done_iff, ← machine_readBlock_eq_loadedFrom (.inl hStrict),
    readBlock_eq_accessEach]
  exact isBounded_loadV.cutShort_accessEach_iff hStrict (length_upTo x)

variable {κ : Type} [KeyInput κ] {word : Word}

theorem fault_pollKey (machine : Machine) (x : Register) (keys : κ) :
    (machine.pollKey x keys).outcome.fault = none := by
  unfold pollKey
  split <;> rfl

theorem step_cutShort_iff (h : machine.upcoming? = some word) {instruction : Instruction}
    (hEncodes : word.Encodes instruction) (keys : κ) :
    (machine.step keys).outcome.CutShort fault final ↔
      ((machine.fetched word).execute (KeyInput.isHeld keys) instruction).CutShort fault final := by
  rw [Outcome.CutShort, fault_step_of_encodes h hEncodes, machine_step_of_encodes h hEncodes]
  rfl

/-- Whatever cuts a step short is a refusal. -/
theorem refuses_of_cutShort (hStrict : machine.config.strict = true) {keys : κ}
    (h : (machine.step keys).outcome.CutShort fault final) : machine.Refuses fault final := by
  cases hWord : machine.upcoming? with
  | none =>
      rcases cases_of_upcoming?_eq_none hWord with ⟨x, hAwaiting⟩ | ⟨hAwaiting, fault', hFetch⟩
      · rw [step_of_awaiting hAwaiting] at h
        exact absurd h (Outcome.not_cutShort_of_fault_eq_none (machine.fault_pollKey x keys))
      · rw [step_of_fetch_eq_error hAwaiting hFetch] at h
        obtain ⟨hFault, rfl⟩ := h
        obtain rfl : fault' = fault := Option.some.inj hFault
        have hBehind : 0xFFE < machine.registers.pc.toNat := by
          apply Nat.lt_of_not_le
          intro hInside
          obtain ⟨word, hOk⟩ := value_fetch_of_le hInside
          rw [hOk] at hFetch
          cases hFetch
        rw [value_fetch_of_lt hStrict hBehind] at hFetch
        obtain rfl := Except.error.inj hFetch
        exact .fetch hAwaiting hBehind
  | some word =>
      have hFetched : (machine.fetched word).config.strict = true := hStrict
      cases hDecode : word.decode with
      | none =>
          refine absurd h (Outcome.not_cutShort_of_fault_eq_none ?_)
          rw [step_of_upcoming? hWord, fault_beginWait, executeWord, hDecode]
          rfl
      | some instruction =>
          have hEncodes := Word.encodes_of_decode hDecode
          rw [step_cutShort_iff hWord hEncodes] at h
          cases instruction with
          | call target =>
              obtain ⟨hFull, rfl, rfl⟩ := (call_cutShort_iff hFetched _).mp h
              exact .call hWord hEncodes.1 hFull
          | ret =>
              obtain ⟨hEmpty, rfl, rfl⟩ := (ret_cutShort_iff hFetched).mp h
              obtain rfl : word = 0x00EE := hEncodes
              exact .ret hWord hEmpty
          | draw x y rows =>
              obtain ⟨hFamily, rfl, rfl, rfl⟩ := hEncodes
              obtain ⟨⟨hRows, hBehind⟩, rfl, rfl⟩ := (draw_cutShort_iff hFetched _ _ _).mp h
              exact .draw hWord hFamily hRows hBehind
          | decimal x =>
              obtain ⟨hFamily, hLow, rfl⟩ := hEncodes
              obtain ⟨hBehind, rfl, rfl⟩ := (decimal_cutShort_iff hFetched _ _).mp h
              exact .decimal hWord hFamily hLow hBehind
          | store x =>
              obtain ⟨hFamily, hLow, rfl⟩ := hEncodes
              obtain ⟨hBehind, rfl, rfl⟩ := (store_cutShort_iff hFetched _ _).mp h
              exact .store hWord hFamily hLow hBehind
          | load x =>
              obtain ⟨hFamily, hLow, rfl⟩ := hEncodes
              obtain ⟨hBehind, rfl, rfl⟩ := (load_cutShort_iff hFetched _ _).mp h
              exact .load hWord hFamily hLow hBehind
          | _ => exact absurd h (Outcome.not_cutShort_of_fault_eq_none rfl)

/-- Every refusal cuts the step short. -/
theorem Refuses.cutShort (hStrict : machine.config.strict = true)
    (h : machine.Refuses fault final) (keys : κ) :
    (machine.step keys).outcome.CutShort fault final := by
  have hFetched (word : Word) : (machine.fetched word).config.strict = true := hStrict
  cases h with
  | fetch hAwaiting hBehind =>
      rw [step_of_fetch_eq_error hAwaiting (value_fetch_of_lt hStrict hBehind)]
      exact ⟨rfl, rfl⟩
  | @call word hWord hFamily hFull =>
      have hEncodes : word.Encodes (.call word.target) := ⟨hFamily, rfl⟩
      rw [step_cutShort_iff hWord hEncodes]
      exact (call_cutShort_iff (hFetched word) _).mpr ⟨hFull, rfl, rfl⟩
  | ret hWord hEmpty =>
      have hEncodes : Word.Encodes 0x00EE .ret := rfl
      rw [step_cutShort_iff hWord hEncodes]
      exact (ret_cutShort_iff (hFetched _)).mpr ⟨hEmpty, rfl, rfl⟩
  | @draw word hWord hFamily hRows hBehind =>
      have hEncodes : word.Encodes (.draw word.x word.y word.last) := ⟨hFamily, rfl, rfl, rfl⟩
      rw [step_cutShort_iff hWord hEncodes]
      exact (draw_cutShort_iff (hFetched word) _ _ _).mpr ⟨⟨hRows, hBehind⟩, rfl, rfl⟩
  | @store word hWord hFamily hLow hBehind =>
      have hEncodes : word.Encodes (.store word.x) := ⟨hFamily, hLow, rfl⟩
      rw [step_cutShort_iff hWord hEncodes]
      exact (store_cutShort_iff (hFetched word) _ _).mpr ⟨hBehind, rfl, rfl⟩
  | @decimal word hWord hFamily hLow hBehind =>
      have hEncodes : word.Encodes (.decimal word.x) := ⟨hFamily, hLow, rfl⟩
      rw [step_cutShort_iff hWord hEncodes]
      exact (decimal_cutShort_iff (hFetched word) _ _).mpr ⟨hBehind, rfl, rfl⟩
  | @load word hWord hFamily hLow hBehind =>
      have hEncodes : word.Encodes (.load word.x) := ⟨hFamily, hLow, rfl⟩
      rw [step_cutShort_iff hWord hEncodes]
      exact (load_cutShort_iff (hFetched word) _ _).mpr ⟨hBehind, rfl, rfl⟩

/-- A refusal leaves more than memory, V0 to VF, the program counter and the last word alone. -/
theorem Refuses.spares (h : machine.Refuses fault final) :
    ∃ memory v pc lastWord, final =
      { machine with
        memory := memory, registers.v := v, registers.pc := pc, lastWord := lastWord } := by
  cases h <;> exact ⟨_, _, _, _, rfl⟩

theorem keys_step_of_cutShort {keys : κ} (h : (machine.step keys).outcome.CutShort fault final) :
    (machine.step keys).keys = keys := by
  cases hWord : machine.upcoming? with
  | none =>
      rcases cases_of_upcoming?_eq_none hWord with ⟨x, hAwaiting⟩ | ⟨hAwaiting, fault', hFetch⟩
      · rw [step_of_awaiting hAwaiting] at h
        exact absurd h (Outcome.not_cutShort_of_fault_eq_none (machine.fault_pollKey x keys))
      · rw [step_of_fetch_eq_error hAwaiting hFetch]
  | some word =>
      have hFault := h.1
      rw [step_of_upcoming? hWord, fault_beginWait] at hFault
      rw [step_of_upcoming? hWord]
      simp only [beginWait, hFault]

/-- What a strict machine refuses, it refuses at every step, and it refuses nothing else. It asks
for no key then, and changes no more than memory, V0 to VF, the program counter and the last
word. -/
theorem strict_step_refuses (machine : Machine) (hStrict : machine.config.strict = true)
    (keys : κ) :
    let stepped := machine.step keys
    (∀ fault final, stepped.outcome.fault = some fault ∧ stepped.outcome.machine = final ↔
      machine.Refuses fault final) ∧
    (stepped.outcome.fault ≠ none → stepped.keys = keys ∧
      ∃ memory v pc lastWord, stepped.outcome.machine =
        { machine with
          memory := memory, registers.v := v, registers.pc := pc, lastWord := lastWord }) := by
  intro stepped
  refine ⟨fun fault final => ⟨refuses_of_cutShort hStrict, (·.cutShort hStrict keys)⟩, ?_⟩
  intro hFault
  obtain ⟨fault, hFault⟩ := Option.ne_none_iff_exists'.mp hFault
  have hCut : stepped.outcome.CutShort fault stepped.outcome.machine := ⟨hFault, rfl⟩
  exact ⟨keys_step_of_cutShort hCut, (refuses_of_cutShort hStrict hCut).spares⟩

/-- Four registers are stored across the end of memory: the first two get there. -/
theorem strict_step_refuses_at_end_of_memory :
    let machine : Machine :=
      { Machine.initial { strict := true } (.ofSeed 0) with
          memory := Memory.install ⟨Vector.replicate 4096 0⟩ 0x200 [0xF3, 0x55]
          registers := { Registers.initial with i := 0xFFE, v := Vector.replicate 16 7 } }
    let stepped := machine.step Keypad.initial
    machine.config.strict = true ∧
    stepped.outcome.fault = some (.outOfRange 0x1000) ∧
    stepped.outcome.machine =
      { machine.fetched 0xF355 with
        memory := machine.memory.overlay 0xFFE [7, 7, 7, 7] } ∧
    stepped.keys = Keypad.initial := by
  intro machine stepped
  have hWord : machine.upcoming? = some 0xF355 := by
    decide +kernel +revert
  have hBehind : 0xFFF < machine.registers.i.toNat + Word.x 0xF355 := by decide
  obtain ⟨hRefuses, hSpares⟩ := strict_step_refuses machine rfl Keypad.initial
  obtain ⟨hFault, hFinal⟩ := (hRefuses _ _).mpr (.store hWord rfl rfl hBehind)
  exact ⟨rfl, hFault, hFinal, (hSpares (hFault ▸ Option.some_ne_none _)).1⟩

end Machine

end Chip8
