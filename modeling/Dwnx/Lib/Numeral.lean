import Mathlib.Data.Nat.Digits.Lemmas

/-!
# Numerals

The digits of a number with the most significant one first, as they are written; there is at
least one, and only `0` begins with `0` (`IsNumeral`). `numeral_div` takes the last digit off,
and `numeral_div_div` the last two.
-/

namespace Numeral

/-- The digits of `n` in base `b`. -/
def numeral (b n : ℕ) : List ℕ := if n = 0 then [0] else (b.digits n).reverse

/-- The digits write `n` in base `b`, without leading zeros. -/
structure IsNumeral (b n : ℕ) (ds : List ℕ) : Prop where
  value : Nat.ofDigits b ds.reverse = n
  lt_base : ∀ d ∈ ds, d < b
  no_leading_zero : ds = [0] ∨ ∃ d l, ds = d :: l ∧ d ≠ 0

variable {b n k : ℕ}

/-- A number below the base is its own digit. -/
theorem numeral_of_lt (h : n < b) : numeral b n = [n] := by
  rw [numeral]
  split
  · next h0 => rw [h0]
  · next h0 => rw [Nat.digits_of_lt b n h0 h, List.reverse_singleton]

/-- The numeral of a positive number has no leading zero. -/
theorem numeral_of_pos (h : 0 < n) : numeral b n = (b.digits n).reverse := if_neg h.ne'

/-- The last digit is the remainder. -/
theorem numeral_div (hb : 1 < b) (h : b ≤ n) : numeral b n = numeral b (n / b) ++ [n % b] := by
  have hpos : 0 < b := Nat.zero_lt_of_lt hb
  rw [numeral_of_pos (hpos.trans_le h), numeral_of_pos (Nat.div_pos h hpos),
    Nat.digits_def' hb (hpos.trans_le h), List.reverse_cons]

/-- The last two digits are those of the remainder. -/
theorem numeral_div_div (hb : 1 < b) (h : b * b ≤ n) :
    numeral b n = numeral b (n / (b * b)) ++ [n / b % b, n % b] := by
  have hpos : 0 < b := Nat.zero_lt_of_lt hb
  have hle : b ≤ n := (Nat.le_mul_of_pos_right b hpos).trans h
  rw [numeral_div hb hle, numeral_div hb ((Nat.le_div_iff_mul_le hpos).2 h), Nat.div_div_eq_div_mul,
    List.append_assoc]
  rfl

/-- A number from `b ^ k` on and below `b ^ (k + 1)` has `k + 1` digits. -/
theorem length_numeral (hb : 1 < b) (hlo : b ^ k ≤ n) (hhi : n < b ^ (k + 1)) :
    (numeral b n).length = k + 1 := by
  have hpos : 0 < n := (Nat.pow_pos (Nat.zero_lt_of_lt hb)).trans_le hlo
  rw [numeral_of_pos hpos, List.length_reverse]
  exact Nat.le_antisymm ((Nat.digits_length_le_iff hb n).2 hhi)
    ((Nat.lt_digits_length_iff hb n).2 hlo)

/-- The numeral of a number stands for it. -/
theorem isNumeral (hb : 1 < b) (n : ℕ) : IsNumeral b n (numeral b n) := by
  rcases Nat.eq_zero_or_pos n with rfl | hpos
  · rw [numeral_of_lt (Nat.zero_lt_of_lt hb)]
    refine ⟨?_, fun d hd => ?_, .inl rfl⟩
    · rw [List.reverse_singleton, Nat.ofDigits_singleton]
    · rw [List.mem_singleton.1 hd]
      exact Nat.zero_lt_of_lt hb
  · rw [numeral_of_pos hpos]
    refine ⟨?_, fun d hd => Nat.digits_lt_base hb (List.mem_reverse.1 hd), .inr ?_⟩
    · rw [List.reverse_reverse, Nat.ofDigits_digits]
    · have hne : b.digits n ≠ [] := Nat.digits_ne_nil_iff_ne_zero.2 hpos.ne'
      have hlast := Nat.getLast_digit_ne_zero b hpos.ne'
      obtain ⟨l, d, hl⟩ := (List.eq_nil_or_concat' (b.digits n)).resolve_left hne
      refine ⟨d, l.reverse, by rw [hl, List.reverse_append]; rfl, ?_⟩
      simpa [hl] using hlast

end Numeral
