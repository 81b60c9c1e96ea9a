import TapeFlow.Json.Number

namespace TapeFlow

/-! Numbers in decimal digits. Digits are read from the left into an accumulator, so what is proved of
the digits of a number is proved for any accumulator in front of them. -/

namespace Text

theorem isDigit_of_mem_ofNat {n : Nat} {c : Char} (member : c ∈ ofNat n) : c.isDigit = true :=
  Nat.isDigit_of_mem_toDigits (by decide) (by decide) member

theorem not_mem_ofNat {n : Nat} {c : Char} (other : c.isDigit = false) : c ∉ ofNat n := by
  intro member
  simp [isDigit_of_mem_ofNat member] at other

theorem ofNat_injective {left right : Nat} (same : ofNat left = ofNat right) : left = right := by
  have values := congrArg (Nat.ofDigitChars 10 · 0) same
  simpa [ofNat, Nat.ofDigitChars_ten_toDigits] using values

theorem exists_ofNat_cons (n : Nat) : ∃ first rest, ofNat n = first :: rest ∧ first.isDigit = true := by
  obtain ⟨first, rest, same⟩ := List.exists_cons_of_ne_nil (Nat.toDigits_ne_nil (n := n) (b := 10))
  exact ⟨first, rest, same, isDigit_of_mem_ofNat (same ▸ List.mem_cons_self)⟩

theorem head?_ofNat_ne_zero {n : Nat} (positive : 0 < n) : (ofNat n).head? ≠ some '0' := by
  induction n using Nat.strongRecOn with
  | ind n ih =>
      by_cases single : n < 10
      · have digits : ∀ n < 10, 0 < n → (ofNat n).head? ≠ some '0' := by decide
        exact digits n single positive
      · have split : ofNat n = ofNat (n / 10) ++ [Nat.digitChar (n % 10)] :=
          Nat.toDigits_of_base_le (by decide) (by omega)
        have shorter := ih (n / 10) (by omega) (by omega)
        obtain ⟨first, rest, same, _⟩ := exists_ofNat_cons (n / 10)
        rw [same] at split shorter
        simpa [split] using shorter

/-- Only the number zero begins with a zero, and it has no other digit. -/
theorem length_ofNat_of_head?_zero {n : Nat} (zero : (ofNat n).head? = some '0') :
    (ofNat n).length = 1 := by
  rcases Nat.eq_zero_or_pos n with rfl | positive
  · rfl
  · exact absurd zero (head?_ofNat_ne_zero positive)

end Text

namespace Json

theorem le_ofDigitChars (digits : Text) (value : Nat) : value ≤ Nat.ofDigitChars 10 digits value := by
  induction digits generalizing value with
  | nil => simp
  | cons digit rest ih =>
      rw [Nat.ofDigitChars_cons]
      exact Nat.le_trans (by omega) (ih _)

theorem appendDigits_eq {digits : Text} {value : Nat}
    (fits : Nat.ofDigitChars 10 digits value < wordSize) :
    appendDigits value digits = (Nat.ofDigitChars 10 digits value, 0) := by
  induction digits generalizing value with
  | nil => simp [appendDigits]
  | cons digit rest ih =>
      have next : 10 * value + (digit.toNat - '0'.toNat) = value * 10 + digitValue digit := by
        rw [Nat.mul_comm, digitValue]
      rw [Nat.ofDigitChars_cons, next] at fits ⊢
      have small := Nat.lt_of_le_of_lt (le_ofDigitChars rest _) fits
      rw [appendDigits, if_pos small, ih fits]

theorem appendDigits_ofNat {n : Nat} (fits : n < wordSize) : appendDigits 0 (Text.ofNat n) = (n, 0) := by
  have value : Nat.ofDigitChars 10 (Text.ofNat n) 0 = n := Nat.ofDigitChars_ten_toDigits
  rw [appendDigits_eq (by rwa [value]), value]

end Json

end TapeFlow
