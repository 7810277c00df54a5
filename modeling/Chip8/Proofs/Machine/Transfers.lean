import Chip8.Proofs.Machine.Blocks
import Chip8.Proofs.Memory.Overlay

/-!
What block transfers come to. A strict machine transfers the elements up to the end of memory and
then stops; any other machine transfers them all, where storing behind memory is lost and loading
from there gives zero. An address that passes the sixteenth bit starts over at the first cell.
-/

namespace Chip8

/-- Registers with V0 to Vx loaded from memory from a cell on, as far as memory reaches. -/
def Registers.loadedFrom (registers : Registers) (memory : Memory) (start : Nat) (x : Register) :
    Registers :=
  { registers with
    v := Vector.ofFn fun r =>
      if r ≤ x then memory.cells[start + r.val]?.getD (registers.getV r) else registers.getV r }

theorem Registers.getV_loadedFrom (registers : Registers) (memory : Memory) (start : Nat)
    (x r : Register) :
    (registers.loadedFrom memory start x).getV r =
      if r ≤ x then memory.cells[start + r.val]?.getD (registers.getV r)
      else registers.getV r :=
  Vector.getElem_ofFn r.isLt

namespace Machine

/-- A byte is read, as zero behind memory, unless a strict machine would read it there. -/
theorem value_readByte (machine : Machine) (address : UInt16) :
    (machine.readByte address).value =
      if machine.config.strict = true ∧ 4096 ≤ address.toNat then .error (.outOfRange address)
      else .ok (machine.memory.get address).value := by
  rw [readByte]
  cases machine.config.strict with
  | false => rfl
  | true =>
      by_cases hInside : address.toNat < 4096
      · have hRead : machine.memory.tryGet address = .ok _ := dif_pos hInside
        simp [Memory.get, hRead, Nat.not_le.mpr hInside]
      · have hRead : machine.memory.tryGet address = .error _ := dif_neg hInside
        simp [hRead, Nat.not_lt.mp hInside]

/-- Accesses at consecutive addresses, one after another. -/
def accessEach {α : Type} (access : Machine → UInt16 → α → Outcome) (machine : Machine)
    (address : UInt16) : List α → Outcome
  | [] => .done machine
  | item :: rest =>
    (access machine address item).andThen fun machine =>
      accessEach access machine (address + 1) rest

theorem writeBlock_eq_accessEach (machine : Machine) (address : UInt16) (bytes : List UInt8) :
    machine.writeBlock address bytes = accessEach writeByte machine address bytes := by
  induction bytes generalizing machine address with
  | nil => rfl
  | cons byte rest ih => simp only [writeBlock, accessEach, ih]

theorem readBlock_eq_accessEach (machine : Machine) (address : UInt16)
    (registers : List Register) :
    machine.readBlock address registers =
      accessEach (fun machine address x => machine.loadV x address) machine address registers := by
  induction registers generalizing machine address with
  | nil => rfl
  | cons x rest ih => simp only [readBlock, accessEach, ih]

/-- Whether an access is cut short exactly if a strict machine makes it behind memory. -/
structure IsBounded {α : Type} (access : Machine → UInt16 → α → Outcome) : Prop where
  config : ∀ machine address item,
    (access machine address item).machine.config = machine.config
  fault : ∀ machine address item, (access machine address item).fault =
    if machine.config.strict = true ∧ 4096 ≤ address.toNat then some (.outOfRange address) else none

/-- Accesses are cut short exactly if a strict machine comes to the end of memory before the last
one, and at the first address behind it. -/
theorem IsBounded.fault_accessEach {α : Type} {access : Machine → UInt16 → α → Outcome}
    (h : IsBounded access) (machine : Machine) (address : UInt16) (items : List α) :
    (accessEach access machine address items).fault =
      if machine.config.strict = true ∧ items ≠ [] ∧ 4096 < address.toNat + items.length then
        some (.outOfRange (UInt16.ofNat (max address.toNat 4096)))
      else none := by
  induction items generalizing machine address with
  | nil => simp [accessEach, Outcome.done]
  | cons item rest ih =>
      have hFirst := h.fault machine address item
      rw [accessEach, Outcome.andThen]
      by_cases hOut : machine.config.strict = true ∧ 4096 ≤ address.toNat
      · rw [if_pos hOut] at hFirst
        have hAll : 4096 < address.toNat + (item :: rest).length := by
          rw [List.length_cons]
          omega
        rw [if_pos ⟨hOut.1, List.cons_ne_nil item rest, hAll⟩, Nat.max_eq_left hOut.2]
        simp [hFirst]
      · rw [if_neg hOut] at hFirst
        simp only [hFirst, Outcome.after, ih, h.config]
        by_cases hStrict : machine.config.strict = true
        · -- The access was inside of memory, so the next address does not start over.
          have hInside := not_and.mp hOut hStrict
          have hNext : (address + 1).toNat = address.toNat + 1 := Memory.toNat_add_one (by omega)
          have hMax : max (address + 1).toNat 4096 = max address.toNat 4096 := by omega
          have hReach : (rest ≠ [] ∧ 4096 < (address + 1).toNat + rest.length) ↔
              item :: rest ≠ [] ∧ 4096 < address.toNat + (item :: rest).length := by
            cases rest with
            | nil => simp; omega
            | cons => simp; omega
          simp only [hMax, hReach]
        · simp [hStrict]

theorem isBounded_writeByte : IsBounded writeByte where
  config machine address value := by
    obtain ⟨memory, hFinal⟩ := machine.machine_writeByte address value
    rw [hFinal]
  fault machine address value := by
    by_cases hInside : address.toNat < 4096
    · rw [writeByte_of_trySet_eq_ok (machine.memory.trySet_of_lt hInside value)]
      simp [Nat.not_le.mpr hInside, Outcome.done]
    · rw [writeByte_of_trySet_eq_error (machine.memory.trySet_of_le (Nat.not_lt.mp hInside) value)]
      cases machine.config.strict <;> simp [Nat.not_lt.mp hInside, Outcome.fail]

theorem isBounded_loadV : IsBounded fun machine address x => machine.loadV x address where
  config machine address x := by
    obtain ⟨v, hFinal⟩ := machine.machine_loadV x address
    rw [hFinal]
  fault machine address x := by
    have hRead := machine.value_readByte address
    rw [loadV]
    split at hRead
    · next hOut => simp only [hRead, if_pos hOut]
    · next hIn => simp only [hRead, if_neg hIn]

variable (machine : Machine)

/-- A byte stored behind memory is lost, whether that is a fault or not. -/
theorem machine_writeByte_eq_overlay (address : UInt16) (value : UInt8) :
    (machine.writeByte address value).machine =
      { machine with memory := machine.memory.overlay address.toNat [value] } := by
  by_cases hInside : address.toNat < 4096
  · rw [writeByte_of_trySet_eq_ok (machine.memory.trySet_of_lt hInside value)]
    rfl
  · rw [writeByte_of_trySet_eq_error (machine.memory.trySet_of_le (Nat.not_lt.mp hInside) value),
      Memory.overlay_of_le _ (Nat.not_lt.mp hInside)]
    cases machine.config.strict <;> rfl

/-- A block that does not start over at the first cell is laid over memory from its address on, as
far as memory reaches. A strict machine never comes to start over. -/
theorem machine_writeBlock_eq_overlay {address : UInt16} {bytes : List UInt8}
    (h : machine.config.strict = true ∨ address.toNat + bytes.length ≤ 65536) :
    (machine.writeBlock address bytes).machine =
      { machine with memory := machine.memory.overlay address.toNat bytes } := by
  induction bytes generalizing machine address with
  | nil =>
      rw [Memory.overlay_nil]
      rfl
  | cons byte rest ih =>
      have hFault := isBounded_writeByte.fault machine address byte
      have hFirst := machine.machine_writeByte_eq_overlay address byte
      rw [writeBlock, Outcome.andThen]
      by_cases hOut : machine.config.strict = true ∧ 4096 ≤ address.toNat
      · rw [if_pos hOut] at hFault
        simp only [hFault, hFirst, Memory.overlay_of_le _ hOut.2]
      · rw [if_neg hOut] at hFault
        simp only [hFault, hFirst, Outcome.after]
        rw [List.length_cons] at h
        -- Behind the last byte the address may start over, but nothing is stored there.
        by_cases hLast : rest = []
        · rw [hLast]
          rfl
        · have hRest := List.length_pos_iff.mpr hLast
          have hBelow : address.toNat < 65535 := by
            rcases h with hStrict | hLength
            · have hInside := not_and.mp hOut hStrict
              omega
            · omega
          have hNext := Memory.toNat_add_one hBelow
          have hLater : machine.config.strict = true ∨
              (address + 1).toNat + rest.length ≤ 65536 := h.imp_right fun _ => by omega
          rw [ih { machine with memory := machine.memory.overlay address.toNat [byte] } hLater,
            hNext]
          simp only [Memory.overlay_cons]

/-- A block that starts behind memory and passes the sixteenth bit is laid over memory from the
first cell on, but for the bytes lost before. -/
theorem machine_writeBlock_of_le {address : UInt16} {bytes : List UInt8}
    (hStrict : machine.config.strict = false) (h : 4096 ≤ address.toNat)
    (hLength : bytes.length ≤ 65536) :
    (machine.writeBlock address bytes).machine =
      { machine with memory := machine.memory.overlay 0 (bytes.drop (65536 - address.toNat)) } := by
  induction bytes generalizing address with
  | nil =>
      rw [List.drop_nil, Memory.overlay_nil]
      rfl
  | cons byte rest ih =>
      have hFault := isBounded_writeByte.fault machine address byte
      have hFirst := machine.machine_writeByte_eq_overlay address byte
      have hAddress := address.toNat_lt
      rw [if_neg (by simp [hStrict])] at hFault
      rw [Memory.overlay_of_le _ h] at hFirst
      rw [List.length_cons] at hLength
      rw [writeBlock, Outcome.andThen]
      simp only [hFault, hFirst, Outcome.after]
      by_cases hEnd : address.toNat = 65535
      · obtain rfl : address = 65535 := UInt16.toNat_inj.mp hEnd
        refine machine.machine_writeBlock_eq_overlay (.inr ?_)
        change 0 + rest.length ≤ 65536
        omega
      · have hNext : (address + 1).toNat = address.toNat + 1 := Memory.toNat_add_one (by omega)
        have hDrop : 65536 - address.toNat = 65536 - (address + 1).toNat + 1 := by omega
        rw [hDrop, List.drop_succ_cons]
        exact ih (by omega) (by omega)

variable {machine}

/-- A register of a block holds the byte at its place afterwards, unless a strict machine would
have read it behind memory. -/
theorem getV_readBlock_of_getElem? {registers : List Register} (hNodup : registers.Nodup)
    {k : Nat} {r : Register} (h : registers[k]? = some r) (address : UInt16) :
    (machine.readBlock address registers).machine.registers.getV r =
      if machine.config.strict = true ∧ 4096 ≤ address.toNat + k then machine.registers.getV r
      else (machine.memory.get (address + UInt16.ofNat k)).value := by
  induction registers generalizing machine address k with
  | nil => cases h
  | cons x rest ih =>
      obtain ⟨hFresh, hRest⟩ := List.nodup_cons.mp hNodup
      have hRead := machine.value_readByte address
      rw [readBlock, Outcome.andThen]
      by_cases hOut : machine.config.strict = true ∧ 4096 ≤ address.toNat
      · rw [if_pos hOut] at hRead
        rw [if_pos ⟨hOut.1, by omega⟩]
        simp only [loadV, hRead]
      · rw [if_neg hOut] at hRead
        simp only [loadV, hRead, Outcome.after]
        cases k with
        | zero =>
            obtain rfl : x = r := Option.some.inj h
            have hHere : address + UInt16.ofNat 0 = address := address.add_zero
            rw [Nat.add_zero, if_neg hOut, hHere, getV_readBlock hFresh, setV,
              Registers.getV_setV, if_pos rfl]
        | succ k =>
            have hOther : x ≠ r := fun hSame => hFresh (hSame ▸ List.mem_of_getElem? h)
            have hReach : machine.config.strict = true ∧ 4096 ≤ (address + 1).toNat + k ↔
                machine.config.strict = true ∧ 4096 ≤ address.toNat + (k + 1) := by
              refine and_congr_right fun hStrict => ?_
              have hInside := not_and.mp hOut hStrict
              rw [Memory.toNat_add_one (by omega), Nat.add_right_comm, Nat.add_assoc]
            rw [ih hRest h, setV, Registers.getV_setV, if_neg hOther, ← Memory.address_add_succ]
            simp only [hReach]

theorem nodup_upTo (x : Register) : (upTo x).Nodup := by
  revert x
  decide

theorem getElem?_upTo {r x : Register} (h : r ≤ x) : (upTo x)[r.val]? = some r := by
  revert r x
  decide

/-- A strict machine loads as many registers as memory reaches. So does any other machine if memory
reaches far enough. -/
theorem machine_readBlock_eq_loadedFrom {address : UInt16} {x : Register}
    (h : machine.config.strict = true ∨ address.toNat + x.val < 4096) :
    (machine.readBlock address (upTo x)).machine =
      { machine with
        registers := machine.registers.loadedFrom machine.memory address.toNat x } := by
  have hV (r : Register) : (machine.readBlock address (upTo x)).machine.registers.getV r =
      (machine.registers.loadedFrom machine.memory address.toNat x).getV r := by
    rw [Registers.getV_loadedFrom]
    by_cases hLoaded : r ≤ x
    · rw [getV_readBlock_of_getElem? (nodup_upTo x) (getElem?_upTo hLoaded), if_pos hLoaded]
      by_cases hBehind : 4096 ≤ address.toNat + r.val
      · have hReach : r.val ≤ x.val := hLoaded
        have hStrict : machine.config.strict = true := h.resolve_right (by omega)
        rw [if_pos ⟨hStrict, hBehind⟩, Vector.getElem?_eq_none hBehind]
        rfl
      · have hPlace : (address + UInt16.ofNat r.val).toNat = address.toNat + r.val :=
          Memory.toNat_add_ofNat (by omega)
        rw [if_neg (hBehind ·.2), Memory.value_get, hPlace,
          Vector.getElem?_eq_getElem (Nat.not_le.mp hBehind)]
        rfl
    · rw [getV_readBlock (mt (mem_upTo x r).mp hLoaded), if_neg hLoaded]
  obtain ⟨v, hFinal⟩ := machine.machine_readBlock address (upTo x)
  rw [hFinal] at hV ⊢
  have hSame : v = (machine.registers.loadedFrom machine.memory address.toNat x).v :=
    Vector.ext fun n hn => hV ⟨n, hn⟩
  rw [hSame]
  rfl

end Machine

end Chip8
