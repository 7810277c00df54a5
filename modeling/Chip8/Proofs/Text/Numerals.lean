import Chip8.Text.Hex

/-!
Hexadecimal numerals read back. What is written for a word or a byte is the upper-case numeral of
its value, filled up with zeros to the least number of digits and not beyond it.
-/

namespace Chip8.Hex

/-- The digits in order of their values. -/
def digitChars : List Char := "0123456789ABCDEF".toList

/-- The number that a number becomes by one more digit behind it. -/
def pushDigit? (n : Nat) (c : Char) : Option Nat :=
  (digitChars.idxOf? c).map (16 * n + ·)

/-- The number that digits stand for, if they are all digits. -/
def value? (text : List Char) : Option Nat :=
  text.foldlM pushDigit? 0

/-- Whether a text is the numeral of a number in at least `least` digits, with no more zeros in
front than that takes. -/
structure IsNumeral (least n : Nat) (text : List Char) : Prop where
  value : value? text = some n
  least_le : least ≤ text.length
  not_padded : least < text.length → text.head? ≠ some '0'

theorem mem_digitChars_of_foldlM {text : List Char} {front n : Nat}
    (h : text.foldlM pushDigit? front = some n) : ∀ c ∈ text, c ∈ digitChars := by
  induction text generalizing front with
  | nil => exact List.forall_mem_nil _
  | cons first rest ih =>
      rw [List.foldlM_cons, Option.bind_eq_bind, Option.bind_eq_some_iff] at h
      obtain ⟨next, hFirst, hRest⟩ := h
      obtain ⟨d, hDigit, -⟩ := Option.map_eq_some_iff.mp hFirst
      refine List.forall_mem_cons.mpr ⟨?_, ih hRest⟩
      exact List.isSome_idxOf?.mp (Option.isSome_of_eq_some hDigit)

/-- A numeral is made of digits only. -/
theorem IsNumeral.mem_digitChars {least n : Nat} {text : List Char} (h : IsNumeral least n text)
    {c : Char} (hMem : c ∈ text) : c ∈ digitChars :=
  mem_digitChars_of_foldlM h.value c hMem

theorem idxOf?_digit (d : Fin 16) : digitChars.idxOf? (digit d) = some d.val := by
  revert d
  decide

/-- Digits in sufficient number read back as the number. -/
theorem value?_digits {width n : Nat} (h : n < Nat.pow 16 width) :
    value? (digits width n) = some n := by
  induction width generalizing n with
  | zero =>
      obtain rfl : n = 0 := Nat.lt_one_iff.mp h
      rfl
  | succ width ih =>
      have hFront : n / 16 < Nat.pow 16 width := Nat.div_lt_of_lt_mul (by rwa [Nat.mul_comm])
      have hRead := ih hFront
      rw [value?] at hRead
      rw [value?, digits, List.foldlM_append, hRead]
      simp [pushDigit?, idxOf?_digit, Nat.div_add_mod]

/-- The first of the digits is the highest. -/
theorem head?_digits (width n : Nat) :
    (digits (width + 1) n).head? = some (digit (Fin.ofNat 16 (n / Nat.pow 16 width))) := by
  induction width generalizing n with
  | zero => simp [digits]
  | succ width ih =>
      rw [digits, List.head?_append, ih, Nat.div_div_eq_div_mul, Option.some_or]
      have hPower : 16 * Nat.pow 16 width = Nat.pow 16 (width + 1) := Nat.mul_comm ..
      rw [hPower]

theorem digit_ne_zero {d : Fin 16} (h : d ≠ 0) : digit d ≠ '0' :=
  fun hZero => h (digit_injective hZero)

/-- A word fits into as many digits as its size says, and into no fewer. -/
theorem toNat_lt_of_size (w : UInt16) : w.toNat < Nat.pow 16 (size w) := by
  unfold size
  split
  · next h => exact UInt16.lt_iff_toNat_lt.mp h
  · split
    · next h => exact UInt16.lt_iff_toNat_lt.mp h
    · split
      · next h => exact UInt16.lt_iff_toNat_lt.mp h
      · exact w.toNat_lt

theorem le_toNat_of_size {w : UInt16} {digits : Nat} (h : size w = digits + 2) :
    Nat.pow 16 (digits + 1) ≤ w.toNat := by
  have hLess {bound : UInt16} (hNot : ¬ w < bound) : bound.toNat ≤ w.toNat :=
    Nat.not_lt.mp (mt UInt16.lt_iff_toNat_lt.mpr hNot)
  unfold size at h
  split at h
  · omega
  · next hOne =>
      split at h
      · obtain rfl : digits = 0 := by omega
        exact hLess hOne
      · next hTwo =>
          split at h
          · obtain rfl : digits = 1 := by omega
            exact hLess hTwo
          · next hThree =>
              obtain rfl : digits = 2 := by omega
              exact hLess hThree

theorem size_le (w : UInt16) : size w ≤ 4 := by
  unfold size
  repeat' split
  all_goals omega

theorem size_le_of_lt {w : UInt16} (h : w.toNat < 4096) : size w ≤ 3 := by
  have hLess : w < 0x1000 := UInt16.lt_iff_toNat_lt.mpr h
  unfold size
  rw [if_pos hLess]
  repeat' split
  all_goals omega

theorem length_byte (b : UInt8) : (byte b).toList.length = 2 := by
  rw [byte, String.toList_ofList, length_digits]

theorem length_word (least : Nat) (w : UInt16) :
    (word least w).toList.length = max least (size w) := by
  rw [word, String.toList_ofList, length_digits]

/-- A word is written as its numeral. -/
theorem isNumeral_word {least : Nat} (hLeast : 0 < least) (w : UInt16) :
    IsNumeral least w.toNat (word least w).toList := by
  rw [word, String.toList_ofList]
  refine ⟨value?_digits ?_, ?_, ?_⟩
  · exact Nat.lt_of_lt_of_le (toNat_lt_of_size w)
      (Nat.pow_le_pow_right (by decide) (Nat.le_max_right ..))
  · rw [length_digits]
    exact Nat.le_max_left ..
  · rw [length_digits]
    intro hLonger
    -- There are as many digits as the word needs, and that is two or more.
    obtain ⟨front, hFront⟩ : ∃ front, size w = front + 2 := ⟨size w - 2, by omega⟩
    have hSize : max least (size w) = front + 1 + 1 := by omega
    have hHigh := le_toNat_of_size hFront
    have hLess := toNat_lt_of_size w
    rw [hFront] at hLess
    have hDigit : w.toNat / Nat.pow 16 (front + 1) < 16 := Nat.div_lt_of_lt_mul hLess
    have hPos : 0 < w.toNat / Nat.pow 16 (front + 1) :=
      Nat.div_pos hHigh (Nat.pow_pos (by decide))
    rw [hSize, head?_digits]
    refine fun hZero => digit_ne_zero (fun hFirst => ?_) (Option.some.inj hZero)
    have hValue : w.toNat / Nat.pow 16 (front + 1) % 16 = 0 := congrArg Fin.val hFirst
    omega

theorem isNumeral_byte (b : UInt8) : IsNumeral 2 b.toNat (byte b).toList := by
  refine ⟨?_, Nat.le_of_eq (length_byte b).symm, fun h => absurd (length_byte b) (Nat.ne_of_gt h)⟩
  rw [byte, String.toList_ofList]
  exact value?_digits b.toNat_lt

end Chip8.Hex
