import Chip8.Memory

/-!
Bytes laid over memory. Writing a byte is laying it over the cell at its address, and a program is
installed by laying all of it over memory; of what reaches behind the last cell nothing is left.
-/

namespace Chip8

namespace Memory

/-- Memory with bytes laid over it from a cell on, as far as memory reaches. -/
def overlay (memory : Memory) (start : Nat) (bytes : List UInt8) : Memory :=
  ⟨Vector.ofFn fun cell =>
    if start ≤ cell.val then bytes[cell.val - start]?.getD (memory.cells.get cell)
    else memory.cells.get cell⟩

theorem ext_cells {first second : Memory}
    (h : ∀ cell, first.cells.get cell = second.cells.get cell) : first = second := by
  obtain ⟨cells⟩ := first
  obtain ⟨others⟩ := second
  exact congrArg Memory.mk (Vector.ext fun n hn => h ⟨n, hn⟩)

theorem toNat_add_ofNat {address : UInt16} {offset : Nat} (h : address.toNat + offset < 65536) :
    (address + UInt16.ofNat offset).toNat = address.toNat + offset := by
  rw [UInt16.toNat_add, UInt16.toNat_ofNat_of_lt' (show offset < 65536 by omega)]
  exact Nat.mod_eq_of_lt h

theorem toNat_add_one {address : UInt16} (h : address.toNat < 65535) :
    (address + 1).toNat = address.toNat + 1 :=
  toNat_add_ofNat (Nat.succ_lt_succ h)

variable (memory : Memory)

theorem get_cells_overlay (start : Nat) (bytes : List UInt8) (cell : Fin 4096) :
    (memory.overlay start bytes).cells.get cell =
      if start ≤ cell.val then bytes[cell.val - start]?.getD (memory.cells.get cell)
      else memory.cells.get cell :=
  Vector.getElem_ofFn cell.isLt

@[simp] theorem overlay_nil (start : Nat) : memory.overlay start [] = memory := by
  apply ext_cells
  simp [get_cells_overlay]

theorem overlay_of_le {start : Nat} (h : 4096 ≤ start) (bytes : List UInt8) :
    memory.overlay start bytes = memory := by
  apply ext_cells
  intro cell
  rw [get_cells_overlay, if_neg (by omega)]

/-- Inside of the bytes laid over memory, they are what memory holds. -/
theorem getElem?_cells_overlay {start offset : Nat} {bytes : List UInt8}
    (hOffset : offset < bytes.length) (hCell : start + offset < 4096) :
    (memory.overlay start bytes).cells[start + offset]? = bytes[offset]? := by
  have hByte := memory.get_cells_overlay start bytes ⟨start + offset, hCell⟩
  rw [if_pos (Nat.le_add_right _ _), Nat.add_sub_cancel_left, List.getElem?_eq_getElem hOffset,
    Option.getD_some] at hByte
  rw [Vector.getElem?_eq_getElem hCell, List.getElem?_eq_getElem hOffset]
  exact congrArg some hByte

/-- Outside of the bytes laid over memory, it is as it was. -/
theorem get_cells_overlay_of_outside {start : Nat} {bytes : List UInt8} {cell : Fin 4096}
    (h : cell.val < start ∨ start + bytes.length ≤ cell.val) :
    (memory.overlay start bytes).cells.get cell = memory.cells.get cell := by
  rw [get_cells_overlay]
  split
  · rw [List.getElem?_eq_none (by omega), Option.getD_none]
  · rfl

theorem get_cells_overlay_singleton (start : Nat) (byte : UInt8) (cell : Fin 4096) :
    (memory.overlay start [byte]).cells.get cell =
      if start = cell.val then byte else memory.cells.get cell := by
  rw [get_cells_overlay]
  rcases Nat.lt_trichotomy cell.val start with hBelow | hAt | hAbove
  · rw [if_neg (by omega), if_neg (by omega)]
  · rw [if_pos (by omega), if_pos hAt.symm, hAt, Nat.sub_self]
    rfl
  · obtain ⟨offset, hOffset⟩ := Nat.exists_eq_add_of_lt hAbove
    have hPlace : cell.val - start = offset + 1 := by omega
    rw [if_pos (by omega), if_neg (by omega), hPlace]
    rfl

theorem overlay_cons (start : Nat) (byte : UInt8) (rest : List UInt8) :
    (memory.overlay start [byte]).overlay (start + 1) rest =
      memory.overlay start (byte :: rest) := by
  apply ext_cells
  intro cell
  rw [get_cells_overlay, get_cells_overlay_singleton, get_cells_overlay]
  rcases Nat.lt_trichotomy cell.val start with hBelow | hAt | hAbove
  · rw [if_neg (by omega), if_neg (by omega), if_neg (by omega)]
  · rw [if_neg (by omega), if_pos hAt.symm, if_pos (by omega), hAt, Nat.sub_self]
    rfl
  · obtain ⟨offset, hOffset⟩ := Nat.exists_eq_add_of_lt hAbove
    have hRest : cell.val - (start + 1) = offset := by omega
    have hAll : cell.val - start = offset + 1 := by omega
    rw [if_pos (by omega), if_neg (by omega), if_pos (by omega), hRest, hAll]
    rfl

/-- Installing bytes lays them over memory. -/
theorem install_eq_overlay (start : Nat) (bytes : List UInt8) :
    memory.install start bytes = memory.overlay start bytes := by
  induction bytes generalizing memory start with
  | nil => exact (memory.overlay_nil start).symm
  | cons byte rest ih =>
      have hFirst : (⟨memory.cells.setIfInBounds start byte⟩ : Memory) =
          memory.overlay start [byte] := by
        apply ext_cells
        intro cell
        rw [get_cells_overlay_singleton]
        exact Vector.getElem_setIfInBounds cell.isLt
      rw [install, hFirst, ih, overlay_cons]

theorem trySet_of_lt {address : UInt16} (h : address.toNat < 4096) (value : UInt8) :
    memory.trySet address value = .ok (memory.overlay address.toNat [value]) := by
  rw [trySet_eq_ok_iff, attemptSet, dif_pos h]
  refine congrArg (Attempt.done · ()) (ext_cells fun cell => ?_)
  rw [get_cells_overlay_singleton]
  exact Vector.getElem_set h cell.isLt

theorem trySet_of_le {address : UInt16} (h : 4096 ≤ address.toNat) (value : UInt8) :
    memory.trySet address value = .error (.outOfRange address) := by
  rw [trySet_eq_error_iff, attemptSet, dif_neg (by omega)]

theorem tryGet_of_lt {address : UInt16} (h : address.toNat < 4096) :
    memory.tryGet address = .ok (memory.cells.get ⟨address.toNat, h⟩) :=
  dif_pos h

/-- Writing is lost behind memory. -/
theorem value_set (address : UInt16) (value : UInt8) :
    (memory.set address value).value = memory.overlay address.toNat [value] := by
  by_cases h : address.toNat < 4096
  · rw [set_of_trySet_eq_ok (memory.trySet_of_lt h value)]
    rfl
  · rw [set_of_trySet_eq_error (memory.trySet_of_le (Nat.not_lt.mp h) value),
      memory.overlay_of_le (Nat.not_lt.mp h)]

/-- The same in the form that tells of a fault, which leaves memory as it was. -/
theorem state_attemptSet (address : UInt16) (value : UInt8) :
    (memory.attemptSet address value).state = memory.overlay address.toNat [value] := by
  by_cases h : address.toNat < 4096
  · rw [trySet_eq_ok_iff.mp (memory.trySet_of_lt h value)]
    rfl
  · rw [trySet_eq_error_iff.mp (memory.trySet_of_le (Nat.not_lt.mp h) value),
      memory.overlay_of_le (Nat.not_lt.mp h)]
    rfl

/-- Reading gives zero behind memory. -/
theorem value_get (address : UInt16) :
    (memory.get address).value = memory.cells[address.toNat]?.getD 0 := by
  rw [get, tryGet]
  by_cases h : address.toNat < 4096
  · rw [dif_pos h, Vector.getElem?_eq_getElem h]
    rfl
  · rw [dif_neg h, Vector.getElem?_eq_none (Nat.not_lt.mp h)]
    rfl

theorem value_get_of_lt {address : UInt16} (h : address.toNat < 4096) :
    (memory.get address).value = memory.cells.get ⟨address.toNat, h⟩ := by
  rw [value_get, Vector.getElem?_eq_getElem h]
  rfl

theorem value_get_of_le {address : UInt16} (h : 4096 ≤ address.toNat) :
    (memory.get address).value = 0 := by
  rw [value_get, Vector.getElem?_eq_none h]
  rfl

/-- A slice is read byte by byte, and ends with memory. -/
theorem slice_eq_map_get (address : UInt16) (length : Nat) :
    memory.slice address length =
      (List.range (min length (4096 - min address.toNat 4096))).map fun offset =>
        (memory.get (address + UInt16.ofNat offset)).value := by
  apply List.ext_getElem
  · simp only [slice, List.length_take, List.length_drop, Vector.length_toList, List.length_map,
      List.length_range]
    omega
  · intro offset hSlice _
    have hCell : address.toNat + offset < 4096 := by
      simp only [slice, List.length_take, List.length_drop, Vector.length_toList] at hSlice
      omega
    have hAddress : (address + UInt16.ofNat offset).toNat = address.toNat + offset :=
      toNat_add_ofNat (by omega)
    rw [List.getElem_map, List.getElem_range, value_get, hAddress, Vector.getElem?_eq_getElem hCell]
    simp only [slice, List.getElem_take, List.getElem_drop, Vector.getElem_toList,
      Option.getD_some]

end Memory

end Chip8
