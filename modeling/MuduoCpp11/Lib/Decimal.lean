import Mathlib.Tactic

/-! # Decimal numbers in bounded buffers

A text that ends in a decimal number and is cut to a fixed length. With room for `k` digits the number
can be read back if and only if it is below `10 ^ k`: from then on digits are lost at the end, and
`10 ^ k` looks like `10 ^ (k - 1)`. -/

namespace MuduoCpp11.Lib.Decimal

/-- `%d` or `%u` of a number that is not negative. -/
def decimal (n : ℕ) : List Char := Nat.toDigits 10 n

/-- What `snprintf` leaves of a text in `size` bytes, one of which ends it. -/
def snprintf (size : ℕ) (text : List Char) : List Char := text.take (size - 1)

theorem snprintf_of_length_lt {size : ℕ} {text : List Char} (h : text.length < size) :
    snprintf size text = text :=
  List.take_of_length_le (by omega)

theorem decimal_injective : Function.Injective decimal := by
  intro m n h
  have hread := congrArg (fun l => Nat.ofDigitChars 10 l 0) h
  simpa [decimal] using hread

/-- The number that a text of digits stands for. -/
def readDecimal (text : List Char) : Option ℕ :=
  if text ≠ [] ∧ text.all Char.isDigit then some (Nat.ofDigitChars 10 text 0) else none

theorem isDigit_of_mem_decimal {n : ℕ} {c : Char} (h : c ∈ decimal n) : c.isDigit :=
  Nat.isDigit_of_mem_toDigits (by decide) (by decide) h

theorem readDecimal_decimal (n : ℕ) : readDecimal (decimal n) = some n := by
  have hne : decimal n ≠ [] := Nat.toDigits_ne_nil
  have hdigits : (decimal n).all Char.isDigit = true :=
    List.all_eq_true.mpr fun _ hc => isDigit_of_mem_decimal hc
  rw [readDecimal, if_pos ⟨hne, hdigits⟩]
  simp [decimal]

theorem length_decimal_le_iff {n k : ℕ} (hk : 0 < k) : (decimal n).length ≤ k ↔ n < 10 ^ k :=
  Nat.length_toDigits_le_iff (by decide) hk

theorem decimal_ten_pow (m : ℕ) : decimal (10 ^ m) = '1' :: List.replicate m '0' := by
  induction m with
  | zero => rfl
  | succ m ih =>
    have hstep : decimal (10 * 10 ^ m + 0) = decimal (10 ^ m) ++ decimal 0 :=
      (Nat.toDigits_append_toDigits (by decide) (by positivity) (by decide)).symm
    rw [Nat.add_zero, ih] at hstep
    rw [Nat.pow_succ, Nat.mul_comm, hstep, List.replicate_succ']
    rfl

/-- Cut to `k` digits, `10 ^ k` is `10 ^ (k - 1)`. -/
theorem take_decimal_ten_pow {k : ℕ} (hk : 0 < k) :
    (decimal (10 ^ k)).take k = decimal (10 ^ (k - 1)) := by
  obtain ⟨j, rfl⟩ : ∃ j, k = j + 1 := ⟨k - 1, by omega⟩
  rw [decimal_ten_pow, Nat.add_sub_cancel, decimal_ten_pow, List.take_succ_cons, List.take_replicate,
    min_eq_left (by omega)]

section

variable {start : List Char} {size : ℕ}

theorem snprintf_append (h : start.length < size) (text : List Char) :
    snprintf size (start ++ text) = start ++ text.take (size - 1 - start.length) := by
  unfold snprintf
  rw [List.take_append, List.take_of_length_le (by omega)]

/-- Numbers that fit are told apart. -/
theorem snprintf_decimal_inj {m n : ℕ} (h : start.length + 1 < size)
    (hm : m < 10 ^ (size - 1 - start.length)) (hn : n < 10 ^ (size - 1 - start.length))
    (heq : snprintf size (start ++ decimal m) = snprintf size (start ++ decimal n)) : m = n := by
  have hk : 0 < size - 1 - start.length := by omega
  rw [snprintf_append (by omega), snprintf_append (by omega),
    List.take_of_length_le ((length_decimal_le_iff hk).mpr hm),
    List.take_of_length_le ((length_decimal_le_iff hk).mpr hn)] at heq
  exact decimal_injective (List.append_cancel_left heq)

/-- The first number that does not fit looks like a smaller one. -/
theorem snprintf_decimal_ten_pow (h : start.length + 1 < size) :
    snprintf size (start ++ decimal (10 ^ (size - 1 - start.length))) =
      snprintf size (start ++ decimal (10 ^ (size - 1 - start.length - 1))) := by
  have hk : 0 < size - 1 - start.length := by omega
  have hlt : 10 ^ (size - 1 - start.length - 1) < 10 ^ (size - 1 - start.length) :=
    Nat.pow_lt_pow_right (by decide) (by omega)
  rw [snprintf_append (by omega), snprintf_append (by omega), take_decimal_ten_pow hk,
    List.take_of_length_le ((length_decimal_le_iff hk).mpr hlt)]

end

end MuduoCpp11.Lib.Decimal
