import Mathlib
import CornerPoint.Proofs.Source.Lexing

/-!
# Decimals are written and read exactly

A decimal is a natural number with some places behind the point. `positional` writes it and
`ofChars?` reads it back, digit for digit. A rational number has such a form when its denominator
divides a power of ten, and then `places?` finds one: the exponents of two and five in a
denominator are at most its logarithm.

> `legible_toRat`: the text of every decimal is a numeral that denotes it.
-/

namespace CornerPoint

open Source (IsDigits IsNumeral Legible)

namespace Decimal

/-! ## Reading numerals -/

/-- Digits end where something else follows. -/
theorem takeWhile_digits {ds rest : List Char} (hds : ∀ d ∈ ds, d.isDigit = true)
    (hrest : ∀ d ∈ rest.head?, d.isDigit = false) :
    (ds ++ rest).takeWhile Char.isDigit = ds ∧ (ds ++ rest).dropWhile Char.isDigit = rest := by
  rw [List.takeWhile_append_of_pos hds, List.dropWhile_append_of_pos hds]
  cases rest with
  | nil => simp
  | cons d rest => simp [hrest d rfl]

/-- Digits alone are a natural number. -/
theorem ofChars?_digits {ds : List Char} (h : IsDigits ds) :
    ofChars? ds = some ⟨ofDigits ds, 0⟩ := by
  have hrest : ∀ d ∈ ([] : List Char).head?, d.isDigit = false := fun _ h => absurd h (by simp)
  obtain ⟨htake, hdrop⟩ := takeWhile_digits h.2 hrest
  rw [List.append_nil] at htake hdrop
  simp [ofChars?, htake, hdrop, fraction, exponent?, h.1]

/-- Digits behind a point count as places. -/
theorem ofChars?_point {whole places : List Char} (hwhole : IsDigits whole)
    (hplaces : IsDigits places) : ofChars? (whole ++ '.' :: places)
      = some ⟨ofDigits (whole ++ places), -places.length⟩ := by
  have hpoint : ∀ d ∈ ('.' :: places).head?, d.isDigit = false := by simp
  obtain ⟨htake, hdrop⟩ := takeWhile_digits hwhole.2 hpoint
  have hrest : ∀ d ∈ ([] : List Char).head?, d.isDigit = false := fun _ h => absurd h (by simp)
  obtain ⟨htake', hdrop'⟩ := takeWhile_digits hplaces.2 hrest
  rw [List.append_nil] at htake' hdrop'
  simp [ofChars?, htake, hdrop, fraction, htake', hdrop', exponent?, hwhole.1]

/-! ## Writing them -/

theorem ofDigits_eq (ds : List Char) : ofDigits ds = Nat.ofDigitChars 10 ds 0 := rfl

theorem isDigits_toDigits (n : Nat) : IsDigits (Nat.toDigits 10 n) :=
  ⟨Nat.toDigits_ne_nil, fun _ => Nat.isDigit_of_mem_toDigits (by decide) (by decide)⟩

/-- Zeros in front do not change a number. -/
theorem ofDigits_padded (n width : Nat) : ofDigits (padded n width) = n := by
  rw [ofDigits_eq, padded, Nat.ofDigitChars_append, Nat.ofDigitChars_replicate_zero, Nat.mul_zero,
    Nat.ofDigitChars_ten_toDigits]

theorem isDigit_of_mem_padded {n width : Nat} : ∀ d ∈ padded n width, d.isDigit = true := by
  rw [padded, List.forall_mem_append]
  exact ⟨fun d hd => (List.mem_replicate.mp hd).2 ▸ rfl, (isDigits_toDigits n).2⟩

theorem le_length_padded (n width : Nat) : width ≤ (padded n width).length := by
  rw [padded, List.length_append, List.length_replicate]
  omega

/-- What is written is a numeral, and denotes what was written. -/
theorem positional_spec (n places : Nat) :
    IsNumeral (positional n places) ∧ ofChars? (positional n places) = some ⟨n, -places⟩ := by
  unfold positional
  split
  next h =>
    have hdigits := isDigits_toDigits n
    refine ⟨.inl hdigits, ?_⟩
    rw [ofChars?_digits hdigits, ofDigits_eq, Nat.ofDigitChars_ten_toDigits, h]
    rfl
  next h =>
    -- at least one digit stands in front of the point
    have hlength := le_length_padded n (places + 1)
    have hwhole : IsDigits
        ((padded n (places + 1)).take ((padded n (places + 1)).length - places)) :=
      ⟨List.ne_nil_of_length_pos (by rw [List.length_take]; omega),
        fun d hd => isDigit_of_mem_padded d (List.mem_of_mem_take hd)⟩
    have hplaces : IsDigits
        ((padded n (places + 1)).drop ((padded n (places + 1)).length - places)) :=
      ⟨List.ne_nil_of_length_pos (by rw [List.length_drop]; omega),
        fun d hd => isDigit_of_mem_padded d (List.mem_of_mem_drop hd)⟩
    refine ⟨.inr ⟨_, _, hwhole, hplaces, rfl⟩, ?_⟩
    rw [ofChars?_point hwhole hplaces, List.take_append_drop, ofDigits_padded, List.length_drop,
      Nat.sub_sub_self (by omega)]

/-! ## Rational numbers -/

theorem toRat_places (n places : Nat) : toRat ⟨n, -places⟩ = n / 10 ^ places := by
  rw [toRat, Rat.mkRat_eq_div]
  simp

theorem toRat_nonneg (d : Decimal) : 0 ≤ d.toRat := by
  rw [toRat, Rat.mkRat_eq_div]
  positivity

/-- A decimal is a fraction over a power of ten. -/
theorem den_toRat_dvd (d : Decimal) : d.toRat.den ∣ 10 ^ (-d.exponent).toNat := by
  rw [toRat, Rat.mkRat_eq_divInt]
  exact Int.natCast_dvd_natCast.mp (Rat.den_dvd _ _)

/-- A divisor of a power of ten divides the one whose exponent is its logarithm. -/
theorem dvd_ten_pow_log2 {den k : Nat} (h : den ∣ 10 ^ k) : den ∣ 10 ^ den.log2 := by
  have hpow : ∀ n, 10 ^ n = 2 ^ n * 5 ^ n := fun n => by rw [← Nat.mul_pow]
  rw [hpow] at h ⊢
  obtain ⟨x, y, hx, hy, rfl⟩ := Nat.dvd_mul.mp h
  obtain ⟨a, _, rfl⟩ := (Nat.dvd_prime_pow Nat.prime_two).mp hx
  obtain ⟨b, _, rfl⟩ := (Nat.dvd_prime_pow Nat.prime_five).mp hy
  have hne : 2 ^ a * 5 ^ b ≠ 0 := by positivity
  have hfive : 2 ^ b ≤ 2 ^ a * 5 ^ b := calc
    2 ^ b ≤ 5 ^ b := Nat.pow_le_pow_left (by decide) b
    _ ≤ 2 ^ a * 5 ^ b := Nat.le_mul_of_pos_left _ (by positivity)
  exact Nat.mul_dvd_mul
    (Nat.pow_dvd_pow 2 ((Nat.le_log2 hne).mpr (Nat.le_mul_of_pos_right _ (by positivity))))
    (Nat.pow_dvd_pow 5 ((Nat.le_log2 hne).mpr hfive))

/-- For such a denominator a number of places is found. -/
theorem exists_places {den k : Nat} (h : den ∣ 10 ^ k) :
    ∃ n, places? den = some n ∧ den ∣ 10 ^ n := by
  have hfound : (places? den).isSome = true := List.find?_isSome.mpr
    ⟨den.log2, List.mem_range.mpr (Nat.lt_succ_self _),
      beq_iff_eq.mpr (Nat.mod_eq_zero_of_dvd (dvd_ten_pow_log2 h))⟩
  obtain ⟨n, hn⟩ := Option.isSome_iff_exists.mp hfound
  have hmod := List.find?_some hn
  exact ⟨n, hn, Nat.dvd_of_mod_eq_zero (beq_iff_eq.mp hmod)⟩

/-- The text of a decimal, as a natural number with places behind the point. -/
theorem exists_ratText (d : Decimal) : ∃ n places,
    ratText d.toRat = String.ofList (positional n places) ∧ d.toRat = n / 10 ^ places := by
  obtain ⟨places, hplaces, hdvd⟩ := exists_places (den_toRat_dvd d)
  have hnum : 0 ≤ d.toRat.num := Rat.num_nonneg.mpr d.toRat_nonneg
  refine ⟨d.toRat.num.natAbs * 10 ^ places / d.toRat.den, places, ?_, ?_⟩
  · rw [ratText, hplaces, Double.signed, decide_eq_false (not_lt.mpr hnum)]
    rfl
  -- the division is exact, since the denominator divides that power of ten
  · have hden : (d.toRat.den : ℚ) ≠ 0 := Nat.cast_ne_zero.mpr d.toRat.den_ne_zero
    have habs : ((d.toRat.num.natAbs : ℕ) : ℚ) = d.toRat.num := by
      rw [← Int.cast_natCast, Int.natAbs_of_nonneg hnum]
    rw [Nat.cast_div (hdvd.mul_left _) hden, Nat.cast_mul, habs, Nat.cast_pow, Nat.cast_ofNat]
    field_simp
    exact (Rat.mul_den_eq_num _)

/-- Reading an unsigned numeral that may have a sign. -/
theorem signed?_of_isNumeral {magnitude? : List Char → Option ℚ} {cs : List Char}
    (h : IsNumeral cs) : signed? magnitude? (String.ofList cs) = magnitude? cs := by
  rw [signed?, String.toList_ofList]
  split
  next => exact absurd h.isDigit_head (by decide)
  next => exact absurd h.isDigit_head (by decide)
  next => rfl

/-- **Decimals are legible.** Their texts are numerals and denote them. -/
theorem legible_toRat (d : Decimal) : Legible d.toRat := by
  obtain ⟨n, places, htext, hvalue⟩ := exists_ratText d
  obtain ⟨hnumeral, hread⟩ := positional_spec n places
  have hscalar : Scalar.text d.toRat = String.ofList (positional n places) := htext
  refine ⟨by rw [hscalar, String.toList_ofList]; exact hnumeral, ?_⟩
  calc Scalar.ofText? (Scalar.text d.toRat)
      = (ofChars? (positional n places)).map toRat := by
        rw [hscalar]
        exact signed?_of_isNumeral hnumeral
    _ = some d.toRat := by rw [hread, Option.map_some, toRat_places, hvalue]

end Decimal

end CornerPoint
