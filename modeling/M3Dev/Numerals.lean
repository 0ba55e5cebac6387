import Mathlib.Data.Nat.Digits.Lemmas

/-! Numerals: the digits of a number in the order in which they are read. -/
namespace M3Dev.Numerals

/-- Digits as a numeral has them: a zero leads only where it stands alone. -/
structure IsNumeral (b : ℕ) (ds : List ℕ) : Prop where
  nonempty : ds ≠ []
  digit : ∀ d ∈ ds, d < b
  lead : ds.head? = some 0 → ds = [0]

/-- The number the digits stand for. -/
def value (b : ℕ) (ds : List ℕ) : ℕ := Nat.ofDigits b ds.reverse

def numeral (b n : ℕ) : List ℕ := if n = 0 then [0] else (b.digits n).reverse

variable {b n : ℕ} {ds : List ℕ}

theorem numeral_zero : numeral b 0 = [0] := if_pos rfl

theorem numeral_of_pos (h : n ≠ 0) : numeral b n = (b.digits n).reverse := if_neg h

theorem value_numeral (b n : ℕ) : value b (numeral b n) = n := by
  by_cases h : n = 0
  · rw [h, numeral_zero]
    rfl
  · rw [value, numeral_of_pos h, List.reverse_reverse, Nat.ofDigits_digits]

/-- One more digit. -/
theorem value_concat (b : ℕ) (ds : List ℕ) (d : ℕ) : value b (ds ++ [d]) = b * value b ds + d := by
  rw [value, value, List.reverse_append, List.reverse_singleton, List.singleton_append,
    Nat.ofDigits_cons]
  exact Nat.add_comm _ _

theorem isNumeral_numeral (hb : 1 < b) (n : ℕ) : IsNumeral b (numeral b n) := by
  by_cases h : n = 0
  · rw [h, numeral_zero]
    refine ⟨List.cons_ne_nil _ _, ?_, fun _ => rfl⟩
    intro d hd
    rw [List.mem_singleton.mp hd]
    exact Nat.zero_lt_of_lt hb
  · have hne : b.digits n ≠ [] := Nat.digits_ne_nil_iff_ne_zero.mpr h
    rw [numeral_of_pos h]
    refine ⟨fun hnil => hne (List.reverse_eq_nil_iff.mp hnil), ?_, ?_⟩
    · intro d hd
      exact Nat.digits_lt_base hb (List.mem_reverse.mp hd)
    · -- the leading digit is the last that division comes to
      intro hlead
      rw [List.head?_reverse, List.getLast?_eq_some_getLast hne] at hlead
      exact absurd (Option.some.inj hlead) (Nat.getLast_digit_ne_zero b h)

/-- A numeral is the numeral of the number it stands for. -/
theorem IsNumeral.numeral_value (hb : 1 < b) (h : IsNumeral b ds) : numeral b (value b ds) = ds := by
  by_cases hlead : ds.head? = some 0
  · rw [h.lead hlead]
    rfl
  · have hdigits : b.digits (value b ds) = ds.reverse := by
      apply Nat.digits_ofDigits b hb
      · intro d hd
        exact h.digit d (List.mem_reverse.mp hd)
      · intro hne hzero
        rw [List.getLast_reverse] at hzero
        rw [List.head?_eq_some_head h.nonempty, hzero] at hlead
        exact hlead rfl
    have hpos : value b ds ≠ 0 := by
      intro hzero
      rw [hzero, Nat.digits_zero] at hdigits
      exact h.nonempty (List.reverse_eq_nil_iff.mp hdigits.symm)
    rw [numeral_of_pos hpos, hdigits, List.reverse_reverse]

/-- A number has one numeral. -/
theorem isNumeral_unique (hb : 1 < b) {ds' : List ℕ} (h : IsNumeral b ds) (h' : IsNumeral b ds')
    (hvalue : value b ds = value b ds') : ds = ds' :=
  calc
    ds = numeral b (value b ds) := (h.numeral_value hb).symm
    _ = numeral b (value b ds') := by rw [hvalue]
    _ = ds' := h'.numeral_value hb

theorem numeral_length_le (hb : 1 < b) {k : ℕ} (hk : 1 ≤ k) (h : n < b ^ k) :
    (numeral b n).length ≤ k := by
  by_cases hzero : n = 0
  · rw [hzero, numeral_zero]
    exact hk
  · rw [numeral_of_pos hzero, List.length_reverse]
    exact (Nat.digits_length_le_iff hb n).mpr h

/-! ### Digits with a width -/

/-- The digits, least first, with zeros behind them up to the width `w`. -/
def padded (b n w : ℕ) : List ℕ := b.digits n ++ List.replicate (w - (b.digits n).length) 0

/-- Division comes to one digit after the other, as long as there is something left of the
number or of the width. -/
theorem padded_cons (hb : 1 < b) {w : ℕ} (h : n ≠ 0 ∨ 0 < w) :
    padded b n w = n % b :: padded b (n / b) (w - 1) := by
  unfold padded
  by_cases hn : n = 0
  · have hw : w - 0 = (w - 1) + 1 := by omega
    rw [hn, Nat.zero_mod, Nat.zero_div, Nat.digits_zero, List.length_nil, hw, List.replicate_succ]
    rfl
  · have hsub : w - ((b.digits (n / b)).length + 1) = w - 1 - (b.digits (n / b)).length := by omega
    rw [Nat.digits_eq_cons_digits_div hb hn, List.length_cons, hsub]
    rfl

theorem padded_nil (b : ℕ) : padded b 0 0 = [] := by
  simp [padded]

theorem padded_zero (h : n ≠ 0) : (padded b n 0).reverse = numeral b n := by
  rw [numeral_of_pos h, padded, Nat.zero_sub, List.replicate_zero, List.append_nil]

theorem padded_one (hb : 1 < b) (h : n < b) : padded b n 1 = [n] := by
  rw [padded_cons hb (Or.inr Nat.one_pos), Nat.mod_eq_of_lt h, Nat.div_eq_of_lt h, padded_nil]

end M3Dev.Numerals
