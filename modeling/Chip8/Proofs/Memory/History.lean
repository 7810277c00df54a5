import Chip8.CallStack
import Chip8.Proofs.Memory.Loading

/-!
The history of memory: all calls made of a new one, and of the call stack beside it. An address
holds what the latest call that took effect there has written, whichever way it did; a call that is
refused and a call of the call stack write nothing.
-/

namespace Chip8

/-- Memory and the call stack beside it. -/
structure Storage where
  memory : Memory
  stack : CallStack

/-- What can be asked of a storage. The stack pointer comes with the call. -/
inductive StorageCall
  | set (address : UInt16) (value : UInt8)
  | trySet (address : UInt16) (value : UInt8)
  | load (program : List UInt8)
  | loadFrom (source : Source)
  | push (sp : Int8) (address : UInt16)
  | pop (sp : Int8)

/-- The byte that a program puts at an address, if it is not too large and reaches it. -/
def programByte? (address : UInt16) (program : List UInt8) : Option UInt8 :=
  if program.length ≤ 3583 ∧ 0x200 ≤ address.toNat then program[address.toNat - 0x200]? else none

namespace StorageCall

/-- The program that a call loads, unless its source fails. -/
def program? : StorageCall → Option (List UInt8)
  | .load program => some program
  | .loadFrom source => source.failure?.elim (some source.content) fun _ => none
  | .set .. | .trySet .. | .push .. | .pop _ => none

/-- The byte that a call writes to an address. -/
def written? (address : UInt16) : StorageCall → Option UInt8
  | .set target value | .trySet target value =>
    if target = address ∧ target.toNat ≤ 0xFFF then some value else none
  | call => call.program?.bind (programByte? address)

/-- Whether a call cannot take effect on memory: a write behind it, a load of what is too large or
cannot be read, or a call of the call stack. -/
def IsIdle : StorageCall → Prop
  | .set target _ | .trySet target _ => 0xFFF < target.toNat
  | .load program => 3583 < program.length
  | .loadFrom source => source.failure? ≠ none ∨ 3583 < source.content.length
  | .push .. | .pop _ => True

end StorageCall

namespace Storage

def initial : Storage := ⟨.initial, .initial⟩

/-- A storage after a call, which may have met a fault. -/
def call (storage : Storage) : StorageCall → Storage
  | .set address value => { storage with memory := (storage.memory.set address value).value }
  | .trySet address value =>
    { storage with memory := (storage.memory.attemptSet address value).state }
  | .load program => { storage with memory := (storage.memory.attemptLoad program).state }
  | .loadFrom source => { storage with memory := (storage.memory.attemptLoadFrom source).state }
  | .push sp address =>
    { storage with stack := (CallStack.Pointed.push ⟨storage.stack, sp⟩ address).state.stack }
  | .pop sp => { storage with stack := (CallStack.Pointed.pop ⟨storage.stack, sp⟩).state.stack }

def after (storage : Storage) (history : List StorageCall) : Storage :=
  history.foldl call storage

end Storage

/-- A program leaves alone what is behind it, and the last cell. -/
theorem programByte?_eq_none {address : UInt16} {program : List UInt8}
    (h : 0x200 + program.length ≤ address.toNat ∨ address.toNat = 0xFFF) :
    programByte? address program = none := by
  unfold programByte?
  split
  · exact List.getElem?_eq_none (by omega)
  · rfl

theorem StorageCall.written?_of_program? {call : StorageCall} {program : List UInt8}
    (h : call.program? = some program) (address : UInt16) :
    call.written? address = programByte? address program := by
  cases call with
  | load | loadFrom => simp only [written?, h, Option.bind_some]
  | set | trySet | push | pop => cases h

namespace Memory

variable (memory : Memory)

theorem value_get_overlay_singleton (target address : UInt16) (value : UInt8) :
    ((memory.overlay target.toNat [value]).get address).value =
      (if target = address ∧ target.toNat ≤ 0xFFF then some value else none).getD
        (memory.get address).value := by
  by_cases h : address.toNat < 4096
  · rw [value_get_of_lt _ h, value_get_of_lt _ h, get_cells_overlay_singleton]
    by_cases hSame : target = address
    · subst hSame
      rw [if_pos rfl, if_pos ⟨rfl, by omega⟩, Option.getD_some]
    · rw [if_neg (mt UInt16.toNat_inj.mp hSame), if_neg (fun hBoth => hSame hBoth.1),
        Option.getD_none]
  · rw [value_get_of_le _ (by omega), value_get_of_le _ (by omega), if_neg ?_, Option.getD_none]
    rintro ⟨rfl, hInside⟩
    omega

theorem value_get_attemptLoad (program : List UInt8) (address : UInt16) :
    ((memory.attemptLoad program).state.get address).value =
      (programByte? address program).getD (memory.get address).value := by
  rw [state_attemptLoad, programByte?]
  by_cases hFits : program.length ≤ 3583
  · by_cases h : address.toNat < 4096
    · rw [if_pos hFits, value_get_of_lt _ h, value_get_of_lt _ h, get_cells_overlay]
      simp only [hFits, true_and]
      split <;> rfl
    · rw [if_pos hFits, value_get_of_le _ (by omega), value_get_of_le _ (by omega),
        List.getElem?_eq_none (by omega), ite_self, Option.getD_none]
  · rw [if_neg hFits, if_neg (fun hBoth => hFits hBoth.1), Option.getD_none]

/-- Memory begins with the font and is zero behind it. -/
theorem value_get_initial (address : UInt16) :
    (Memory.initial.get address).value = font[address.toNat]?.getD 0 := by
  by_cases h : address.toNat < 4096
  · rw [value_get_of_lt _ h, initial, install_eq_overlay, get_cells_overlay,
      if_pos (Nat.zero_le _), Nat.sub_zero]
    congr 1
    exact Vector.getElem_replicate h
  · rw [value_get_of_le _ (by omega), List.getElem?_eq_none (by rw [length_font]; omega)]
    rfl

end Memory

namespace Storage

variable (storage : Storage)

/-- A call that can take effect neither by itself nor by a program leaves memory alone. -/
theorem memory_call_of_idle {call : StorageCall} (h : call.IsIdle) :
    (storage.call call).memory = storage.memory := by
  cases call with
  | set address value =>
      rw [Storage.call, Memory.value_set, Memory.overlay_of_le _ h]
  | trySet address value =>
      rw [Storage.call, Memory.state_attemptSet, Memory.overlay_of_le _ h]
  | load program =>
      rw [Storage.call, Memory.attemptLoad_of_lt _ h]
      rfl
  | loadFrom source =>
      rw [Storage.call]
      cases hFailure : source.failure? with
      | none =>
          rw [Memory.attemptLoadFrom_of_no_failure _ hFailure,
            Memory.attemptLoad_of_lt _ (h.resolve_left (· hFailure))]
          rfl
      | some reason =>
          rw [Memory.attemptLoadFrom_of_failure _ hFailure]
          rfl
  | push sp address => rfl
  | pop sp => rfl

/-- A call writes one byte to an address, or leaves it alone. -/
theorem value_get_call (call : StorageCall) (address : UInt16) :
    ((storage.call call).memory.get address).value =
      (call.written? address).getD (storage.memory.get address).value := by
  cases call with
  | set target value =>
      rw [Storage.call, Memory.value_set]
      exact storage.memory.value_get_overlay_singleton target address value
  | trySet target value =>
      rw [Storage.call, Memory.state_attemptSet]
      exact storage.memory.value_get_overlay_singleton target address value
  | load program => exact storage.memory.value_get_attemptLoad program address
  | loadFrom source =>
      simp only [Storage.call, StorageCall.written?, StorageCall.program?]
      cases hFailure : source.failure? with
      | none =>
          rw [Memory.attemptLoadFrom_of_no_failure _ hFailure]
          exact storage.memory.value_get_attemptLoad source.content address
      | some reason =>
          rw [Memory.attemptLoadFrom_of_failure _ hFailure]
          rfl
  | push sp target => rfl
  | pop sp => rfl

/-- An address holds the byte that was written to it last. -/
theorem value_get_after (history : List StorageCall) (address : UInt16) :
    ((storage.after history).memory.get address).value =
      (history.filterMap (·.written? address)).getLast?.getD
        (storage.memory.get address).value := by
  induction history generalizing storage with
  | nil => rfl
  | cons call later ih =>
      rw [after, List.foldl_cons, ← after, ih, value_get_call, List.filterMap_cons]
      cases call.written? address with
      | none => rfl
      | some byte => simp only [List.getLast?_cons, Option.getD_some]

/-- After any calls of a new storage, an address within memory holds the byte that was written to it
last, or the font or zero if none was; every way of reading agrees on it. Behind memory there is
nothing to read but zero. What cannot take effect changes no byte; a program changes none behind
its own end, and never the last one. -/
theorem memory_follows_history (history : List StorageCall) (address : UInt16) :
    let storage := initial.after history
    let byte := (history.filterMap (·.written? address)).getLast?.getD
      (font[address.toNat]?.getD 0)
    (∀ fault, storage.memory.tryGet address = .error fault ↔
      0xFFF < address.toNat ∧ fault = .outOfRange address) ∧
    (0xFFF < address.toNat → (storage.memory.get address).value = 0) ∧
    (address.toNat ≤ 0xFFF →
      storage.memory.tryGet address = .ok byte ∧ (storage.memory.get address).value = byte) ∧
    (∀ length, storage.memory.slice address length =
      (List.range (min length (4096 - min address.toNat 4096))).map fun offset =>
        (storage.memory.get (address + UInt16.ofNat offset)).value) ∧
    (∀ call : StorageCall, call.IsIdle → (storage.call call).memory = storage.memory) ∧
    ∀ (call : StorageCall) (program : List UInt8), call.program? = some program →
      0x200 + program.length ≤ address.toNat ∨ address.toNat = 0xFFF →
      ((storage.call call).memory.get address).value = (storage.memory.get address).value := by
  intro storage byte
  have hByte : (storage.memory.get address).value = byte := by
    rw [value_get_after, initial, Memory.value_get_initial]
  refine ⟨storage.memory.tryGet_eq_error_iff address, storage.memory.value_get_of_le, ?_,
    storage.memory.slice_eq_map_get address, fun _ => storage.memory_call_of_idle, ?_⟩
  · intro hInside
    have hCell := storage.memory.value_get_of_lt (Nat.lt_succ_of_le hInside)
    rw [Memory.tryGet_of_lt _ (Nat.lt_succ_of_le hInside), ← hCell, hByte]
    exact ⟨rfl, rfl⟩
  · intro call program hProgram hOutside
    rw [value_get_call, StorageCall.written?_of_program? hProgram, programByte?_eq_none hOutside,
      Option.getD_none]

end Storage

end Chip8
