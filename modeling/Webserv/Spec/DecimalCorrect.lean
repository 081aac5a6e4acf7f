import Mathlib.Data.List.TakeWhile
import Webserv.Native.Bytes

/-!
# Reading back printed numbers

`std::stoul` and `std::atoi` undo `std::to_string` on the numbers they can hold.

## Key results

- `digitsValue_toDecimal`: the digits printed for a number have its value
- `stoul_toDecimal`, `atoi_toDecimal`: the two readers return the printed number
-/

namespace Webserv

/-! ## Digits -/

/-- The character of a digit. -/
theorem digit_toNat {d : Nat} (h : d < 10) : (Byte.zero + UInt8.ofNat d).toNat = 48 + d := by
  have hzero : Byte.zero.toNat = 48 := rfl
  rw [UInt8.toNat_add, hzero, UInt8.toNat_ofNat']
  omega

/-- The digits are the characters from 48 to 57. -/
theorem isDigit_iff {c : UInt8} : isDigit c = true ↔ 48 ≤ c.toNat ∧ c.toNat ≤ 57 := by
  simp [isDigit, Byte.zero, UInt8.le_iff_toNat_le]

/-- A digit is not skipped as a space. -/
theorem isSpace_of_isDigit {c : UInt8} (h : isDigit c = true) : isSpace c = false := by
  rw [isDigit_iff] at h
  have hspace : c ≠ Byte.space := by
    rintro rfl
    exact absurd h (by decide)
  have hblank : ¬ c ≤ Byte.cr := by
    simp only [UInt8.le_iff_toNat_le, Byte.cr]
    show ¬ c.toNat ≤ 13
    omega
  simp [isSpace, hspace, hblank]

/-- One digit more at the end. -/
theorem digitsValue_append_singleton (ds : Bytes) (d : UInt8) :
    digitsValue (ds ++ [d]) = 10 * digitsValue ds + (d.toNat - 48) := by
  simp [digitsValue]

/-- The digits printed for a number have its value. -/
theorem digitsValue_toDecimal (n : Nat) : digitsValue (toDecimal n) = n := by
  induction n using Nat.strong_induction_on with
  | _ n ih =>
    rw [toDecimal]
    split
    · rename_i hlt
      -- one digit is a digit behind the empty string
      rw [← List.nil_append [_], digitsValue_append_singleton, digit_toNat hlt]
      show 10 * 0 + (48 + n - 48) = n
      omega
    · -- the last digit, behind the digits of `n / 10`
      have hmod : n % 10 < 10 := Nat.mod_lt _ (by omega)
      rw [digitsValue_append_singleton, digit_toNat hmod, ih (n / 10) (by omega)]
      omega

/-- A number is written in digits. -/
theorem isDigit_of_mem_toDecimal {n : Nat} {c : UInt8} (h : c ∈ toDecimal n) :
    isDigit c = true := by
  induction n using Nat.strong_induction_on with
  | _ n ih =>
    rw [toDecimal] at h
    split at h
    · rename_i hlt
      rw [List.mem_singleton.mp h, isDigit_iff, digit_toNat hlt]
      omega
    · -- one of the digits of `n / 10`, or the last one
      have hmod : n % 10 < 10 := Nat.mod_lt _ (by omega)
      rcases List.mem_append.mp h with h | h
      · exact ih (n / 10) (by omega) h
      · rw [List.mem_singleton.mp h, isDigit_iff, digit_toNat hmod]
        omega

/-- A number has a digit. -/
theorem toDecimal_ne_nil (n : Nat) : toDecimal n ≠ [] := by
  rw [toDecimal]
  split <;> simp

/-! ## The readers -/

/-- A string of digits has no blanks and no sign to skip, and is read whole. -/
theorem scanNumber_of_digits {ds : Bytes} (hne : ds ≠ []) (h : ∀ c ∈ ds, isDigit c = true) :
    scanNumber ds = some (false, digitsValue ds) := by
  obtain ⟨c, cs, rfl⟩ := List.exists_cons_of_ne_nil hne
  have hc := h c List.mem_cons_self
  -- neither a space nor a sign is in front
  have hdrop : (c :: cs).dropWhile isSpace = c :: cs :=
    List.dropWhile_cons_of_neg (by simp [isSpace_of_isDigit hc])
  have hminus : c ≠ Byte.minus := by
    rintro rfl
    exact absurd hc (by decide)
  have hplus : c ≠ Byte.plus := by
    rintro rfl
    exact absurd hc (by decide)
  have htake : (c :: cs).takeWhile isDigit = c :: cs := List.takeWhile_eq_self_iff.mpr h
  simp only [scanNumber, hdrop, scanSign, hminus, hplus, ↓reduceIte, htake]
  simp

/-- What is written is read back. -/
theorem scanNumber_toDecimal (n : Nat) : scanNumber (toDecimal n) = some (false, n) := by
  rw [scanNumber_of_digits (toDecimal_ne_nil n) fun _ => isDigit_of_mem_toDecimal,
    digitsValue_toDecimal]

/-- A byte that is no part of a number ends it. -/
theorem scanNumber_append_cons {c : UInt8} (hspace : isSpace c = false) (hminus : c ≠ Byte.minus)
    (hplus : c ≠ Byte.plus) (hdigit : isDigit c = false) (s rest : Bytes) :
    scanNumber (s ++ c :: rest) = scanNumber s := by
  -- the character behind the number stops each of the three loops
  have htake : ∀ s : Bytes, (s ++ c :: rest).takeWhile isDigit = s.takeWhile isDigit := by
    intro s
    rw [List.takeWhile_append, List.takeWhile_cons_of_neg (by simp [hdigit]), List.append_nil]
    split
    · rename_i hall
      rw [(List.takeWhile_prefix isDigit).eq_of_length hall]
    · rfl
  have hdrop : (s ++ c :: rest).dropWhile isSpace = s.dropWhile isSpace ++ c :: rest := by
    rw [List.dropWhile_append, List.dropWhile_cons_of_neg (by simp [hspace])]
    split
    · rename_i hnil
      rw [List.isEmpty_iff.mp hnil]
      rfl
    · rfl
  have hsign : ∀ s : Bytes, scanSign (s ++ c :: rest) =
      ((scanSign s).1, (scanSign s).2 ++ c :: rest) := by
    intro s
    cases s with
    | nil => simp [scanSign, hminus, hplus]
    | cons b s =>
      simp only [List.cons_append, scanSign]
      split
      · rfl
      · split <;> rfl
  simp only [scanNumber, hdrop, hsign, htake]

/-- `std::stoul` reads back every `size_t`. -/
theorem stoul_toDecimal {n : Nat} (h : n < sizeLimit) : stoul (toDecimal n) = .ok n := by
  simp [stoul, scanNumber_toDecimal, Nat.not_le.mpr h]

/-- A number without a sign that an `int` can hold. -/
theorem atoi_of_scanNumber {s : Bytes} {n : Nat} (hs : scanNumber s = some (false, n))
    (h : n < 2 ^ 31) : atoi s = n := by
  -- neither the `long` nor the `int` is exceeded
  have hlong : min (2 ^ 63 - 1) (n : Int) = n := by omega
  simp only [atoi, hs, Bool.false_eq_true, ↓reduceIte, hlong]
  rw [Int.bmod_eq_of_le] <;> omega

/-- `std::atoi` reads back every non-negative `int`. -/
theorem atoi_toDecimal {n : Nat} (h : n < 2 ^ 31) : atoi (toDecimal n) = n :=
  atoi_of_scanNumber (scanNumber_toDecimal n) h

/-- `atoi` reads back what fits into an `int`. -/
theorem atoi_toDecimalInt {i : Int} (hlow : 0 ≤ i) (hhigh : i < 2 ^ 31) :
    atoi (toDecimalInt i) = i := by
  rw [toDecimalInt, if_neg (by omega), atoi_toDecimal (by omega)]
  omega

end Webserv
