import Mathlib
import CornerPoint.Proofs.Number.Decimal
import CornerPoint.Proofs.Source.Rejection

/-!
# Numbers in a text denote numbers

Where a number ends depends on up to two characters behind it: a point counts only in front of a
digit, `e` only in front of digits that may have a sign. So what the scanner cuts off as a number
is always complete (`isLiteral_take_number`), and a way of reading numbers that knows these forms
(`ReadsLiterals`) finds a number in each of them.

> `numbers_denote`: the number tokens of every text are literals, and no text is rejected because
> of a number that denotes nothing.
-/

namespace CornerPoint.Source

/-! ## Literals -/

/-- Digits, digits with a point and digits behind them, or a point and digits. -/
def IsMantissa (cs : List Char) : Prop :=
  IsNumeral cs ∨ ∃ places, IsDigits places ∧ cs = '.' :: places

/-- `e` or `E`, perhaps a sign, and digits. -/
def IsExponent (cs : List Char) : Prop :=
  ∃ e sign ds, (e = 'e' ∨ e = 'E') ∧ (sign = [] ∨ sign = ['+'] ∨ sign = ['-']) ∧ IsDigits ds ∧
    cs = e :: (sign ++ ds)

/-- A mantissa and perhaps an exponent. -/
def IsLiteral (cs : List Char) : Prop :=
  ∃ mantissa exponent, IsMantissa mantissa ∧ (exponent = [] ∨ IsExponent exponent) ∧
    cs = mantissa ++ exponent

/-! ## What is cut off as a number -/

namespace Lexeme

/-- Digits at the front are all that a run of digits takes. -/
theorem isDigits_take_run {cs : List Char} (h : run Char.isDigit cs ≠ 0) :
    IsDigits (cs.take (run Char.isDigit cs)) := by
  rw [take_run]
  exact ⟨fun hnil => h (by rw [run, hnil]; rfl), fun _ hd => List.mem_takeWhile_imp hd⟩

/-- A fraction is a point and digits. -/
theorem take_fraction {cs : List Char} (h : fraction cs ≠ 0) :
    ∃ places, IsDigits places ∧ cs.take (fraction cs) = '.' :: places := by
  cases cs with
  | nil => exact absurd rfl h
  | cons c cs =>
    by_cases hc : c = '.'
    · subst hc
      simp only [fraction] at h ⊢
      split at h
      next => exact absurd rfl h
      next hdigits =>
        rw [if_neg hdigits, Nat.add_comm, List.take_succ_cons]
        exact ⟨_, isDigits_take_run hdigits, rfl⟩
    · simp [fraction, hc] at h

/-- The sign at the front. -/
theorem take_sign (cs : List Char) :
    cs.take (sign cs) = [] ∨ cs.take (sign cs) = ['+'] ∨ cs.take (sign cs) = ['-'] := by
  unfold sign
  split <;> simp

/-- An exponent has digits. -/
theorem isExponent_take {cs : List Char} (h : exponent cs ≠ 0) :
    IsExponent (cs.take (exponent cs)) := by
  cases cs with
  | nil => exact absurd rfl h
  | cons e cs =>
    simp only [exponent] at h ⊢
    split at h
    next hexp =>
      simp only [Bool.and_eq_true, Bool.or_eq_true, beq_iff_eq, bne_iff_ne] at hexp
      rw [if_pos (by simpa using hexp), Nat.add_assoc, Nat.add_comm, List.take_succ_cons,
        List.take_add]
      exact ⟨e, _, _, hexp.1, take_sign cs, isDigits_take_run hexp.2, rfl⟩
    next => exact absurd rfl h

/-- Digits, and behind them or in their place a fraction, are a mantissa. -/
theorem isMantissa_take {cs : List Char}
    (h : run Char.isDigit cs ≠ 0 ∨ fraction (cs.drop (run Char.isDigit cs)) ≠ 0) :
    IsMantissa (cs.take (run Char.isDigit cs + fraction (cs.drop (run Char.isDigit cs)))) := by
  rw [List.take_add]
  by_cases hplaces : fraction (cs.drop (run Char.isDigit cs)) = 0
  · rw [hplaces, List.take_zero, List.append_nil]
    exact .inl (.inl (isDigits_take_run (h.resolve_right (not_not_intro hplaces))))
  · obtain ⟨places, hdigits, htake⟩ := take_fraction hplaces
    rw [htake]
    by_cases hwhole : run Char.isDigit cs = 0
    · rw [hwhole]
      exact .inr ⟨places, hdigits, rfl⟩
    · exact .inl (.inr ⟨_, places, isDigits_take_run hwhole, hdigits, rfl⟩)

/-- **What is cut off as a number is a literal.** -/
theorem isLiteral_take_number {cs : List Char}
    (h : run Char.isDigit cs ≠ 0 ∨ fraction (cs.drop (run Char.isDigit cs)) ≠ 0) :
    IsLiteral (cs.take (number cs)) := by
  refine ⟨_, _, isMantissa_take h, ?_, List.take_add⟩
  by_cases hexp :
      exponent (cs.drop (run Char.isDigit cs + fraction (cs.drop (run Char.isDigit cs)))) = 0
  · exact .inl (by rw [hexp, List.take_zero])
  · exact .inr (isExponent_take hexp)

/-- What is read as a number begins with a digit, or with a point in front of one, and is as long
as the number at the front. -/
theorem number_of_kind {c : Char} {cs : List Char} (h : (of c cs).kind = .number) :
    (c.isDigit = true ∨ c = '.' ∧ fraction (c :: cs) ≠ 0) ∧
      (of c cs).more = number (c :: cs) - 1 := by
  have hword : ∀ cs, nameKind cs ≠ .number := fun cs => by
    unfold nameKind
    split <;> simp
  have hof := of_eq_word_of_kind (.inr h)
  rw [hof] at h ⊢
  unfold word at h ⊢
  split
  next hnum => exact ⟨by simpa using hnum, rfl⟩
  next hnum =>
    rw [if_neg hnum] at h
    split at h
    next => exact absurd h (hword _)
    next => cases h

/-- The text of a number token is a literal. -/
theorem isLiteral_of_kind {c : Char} {cs : List Char} (h : (of c cs).kind = .number) :
    IsLiteral (c :: cs.take (of c cs).more) := by
  obtain ⟨hhead, hmore⟩ := number_of_kind h
  have hsome : run Char.isDigit (c :: cs) ≠ 0 ∨
      fraction ((c :: cs).drop (run Char.isDigit (c :: cs))) ≠ 0 := by
    rcases hhead with hc | ⟨rfl, hplaces⟩
    · left
      rw [run, List.takeWhile_cons, if_pos hc]
      simp
    · exact .inr hplaces
  have hpos : number (c :: cs) ≠ 0 := by
    rw [number]
    omega
  obtain ⟨n, hn⟩ := Nat.exists_eq_succ_of_ne_zero hpos
  have hliteral := isLiteral_take_number hsome
  rw [hn, List.take_succ_cons] at hliteral
  rwa [hmore, hn, Nat.succ_sub_one]

end Lexeme

/-- The number tokens of a text are literals. -/
theorem isLiteral_of_mem_tokenize {source : String} {t : Token} (ht : t ∈ tokenize source)
    (hk : t.kind = .number) : IsLiteral t.text.toList := by
  obtain ⟨c, cs, hkind, htext⟩ := exists_lexeme_of_mem_tokens _ t ht (by rw [hk]; simp)
  exact htext ▸ Lexeme.isLiteral_of_kind (hkind ▸ hk)

/-! ## Reading literals -/

/-- Every literal denotes a number. -/
def ReadsLiterals (K : Type) [Scalar K] : Prop :=
  ∀ text : String, IsLiteral text.toList → (Scalar.ofText? text : Option K).isSome = true

/-- A literal begins with neither a sign. -/
theorem IsLiteral.head {c : Char} {cs : List Char} (h : IsLiteral (c :: cs)) :
    c.isDigit = true ∨ c = '.' := by
  obtain ⟨mantissa, exponent, hmantissa, -, heq⟩ := h
  rcases hmantissa with hnumeral | ⟨places, -, rfl⟩
  · cases mantissa with
    | nil =>
      rcases hnumeral with hdigits | ⟨whole, places, -, -, hnil⟩
      · exact absurd rfl hdigits.1
      · exact absurd hnil (by simp)
    | cons d mantissa =>
      obtain ⟨rfl, -⟩ := List.cons.inj heq
      exact .inl hnumeral.isDigit_head
  · exact .inr (List.cons.inj heq).1

end CornerPoint.Source

namespace CornerPoint

open Source

namespace Decimal

theorem digits?_of_isDigits {ds : List Char} (h : IsDigits ds) :
    digits? ds = some (ofDigits ds) := by
  rw [digits?, if_pos]
  simpa [h.1] using h.2

/-- Exponents are read. -/
theorem exponent?_isSome {cs : List Char} (h : cs = [] ∨ IsExponent cs) :
    (exponent? cs).isSome = true := by
  rcases h with rfl | ⟨e, sign, ds, he, hsign, hds, rfl⟩
  · rfl
  have hread := digits?_of_isDigits hds
  have hmark : (e == 'e' || e == 'E') = true := by simpa using he
  unfold exponent?
  rcases hsign with rfl | rfl | rfl
  · dsimp only [List.nil_append]
    rw [if_pos hmark]
    split
    next => exact absurd (hds.2 _ List.mem_cons_self) (by decide)
    next => exact absurd (hds.2 _ List.mem_cons_self) (by decide)
    next => simp [hread]
  · simp [hmark, hread]
  · simp [hmark, hread]

section Mantissa

variable {whole places rest : List Char}

/-- Digits without decimal places denote a decimal when what follows is an exponent or nothing. -/
theorem ofChars?_isSome_of_digits (hwhole : IsDigits whole)
    (hrest : ∀ d ∈ rest.head?, d.isDigit = false ∧ d ≠ '.') (h : (exponent? rest).isSome = true) :
    (ofChars? (whole ++ rest)).isSome = true := by
  obtain ⟨htake, hdrop⟩ := takeWhile_digits hwhole.2 fun d hd => (hrest d hd).1
  have hfraction : fraction rest = ([], rest) := by
    unfold fraction
    split
    next => exact absurd rfl (hrest '.' rfl).2
    next => rfl
  simpa [ofChars?, htake, hdrop, hfraction, hwhole.1] using h

/-- Digits around a point denote a decimal; in front of it there may be none. -/
theorem ofChars?_isSome_of_point (hwhole : ∀ d ∈ whole, d.isDigit = true)
    (hplaces : IsDigits places) (hrest : ∀ d ∈ rest.head?, d.isDigit = false)
    (h : (exponent? rest).isSome = true) :
    (ofChars? (whole ++ '.' :: (places ++ rest))).isSome = true := by
  have hpoint : ∀ d ∈ ('.' :: (places ++ rest)).head?, d.isDigit = false := by simp
  obtain ⟨htake, hdrop⟩ := takeWhile_digits hwhole hpoint
  obtain ⟨htake', hdrop'⟩ := takeWhile_digits hplaces.2 hrest
  simpa [ofChars?, htake, hdrop, fraction, htake', hdrop', hplaces.1] using h

end Mantissa

/-- **Literals are read as decimals.** -/
theorem ofChars?_isSome {cs : List Char} (h : IsLiteral cs) : (ofChars? cs).isSome = true := by
  obtain ⟨mantissa, exponent, hmantissa, hexponent, rfl⟩ := h
  have hread := exponent?_isSome hexponent
  -- the exponent begins with neither a digit nor a point
  have hhead : ∀ d ∈ exponent.head?, d.isDigit = false ∧ d ≠ '.' := by
    rcases hexponent with rfl | ⟨e, sign, ds, he, -, -, rfl⟩
    · simp
    · intro d hd
      obtain rfl : e = d := Option.some.inj hd
      rcases he with rfl | rfl <;> decide
  have hdigit : ∀ d ∈ exponent.head?, d.isDigit = false := fun d hd => (hhead d hd).1
  rcases hmantissa with (hwhole | ⟨whole, places, hwhole, hplaces, rfl⟩) | ⟨places, hplaces, rfl⟩
  · exact ofChars?_isSome_of_digits hwhole hhead hread
  · rw [List.append_assoc, List.cons_append]
    exact ofChars?_isSome_of_point hwhole.2 hplaces hdigit hread
  · have hwhole : ∀ d ∈ ([] : List Char), d.isDigit = true := by simp
    exact ofChars?_isSome_of_point hwhole hplaces hdigit hread

/-- A literal has no sign to be read. -/
theorem signed?_of_isLiteral {K : Type} [Neg K] {magnitude? : List Char → Option K} {s : String}
    (h : IsLiteral s.toList) : signed? magnitude? s = magnitude? s.toList := by
  have hhead : ∀ c cs, s.toList = c :: cs → c.isDigit = true ∨ c = '.' := fun c cs hcs =>
    (hcs ▸ h : IsLiteral (c :: cs)).head
  unfold signed?
  split
  next hcs => exact absurd (hhead _ _ hcs) (by decide)
  next hcs => exact absurd (hhead _ _ hcs) (by decide)
  next => rfl

end Decimal

namespace Source

theorem readsLiterals_rat : ReadsLiterals ℚ := fun text h => by
  have hread := Decimal.ofChars?_isSome h
  change (Decimal.signed? (fun cs => (Decimal.ofChars? cs).map Decimal.toRat) text).isSome = true
  rwa [Decimal.signed?_of_isLiteral h, Option.isSome_map]

/-- Every literal denotes a double, overflow and underflow included. -/
theorem readsLiterals_float : ReadsLiterals Float := fun text h => by
  have hread := Decimal.ofChars?_isSome h
  change (Decimal.signed? Double.ofChars? text).isSome = true
  rw [Decimal.signed?_of_isLiteral h, Double.ofChars?]
  split
  next => rfl
  next => rfl
  next => rfl
  next => rwa [Option.isSome_map]

/-! ## Numbers never get in the way -/

/-- Where all numbers denote something the reader only finds tokens that are out of place. -/
theorem Reader.run_ne_badNumber {K : Type} [Scalar K] {r : Reader K} {ts : List Token}
    (hv : ∀ t ∈ ts, t.Valid K) (text : String) : r.run ts ≠ .error (.badNumber text) := by
  -- at the end of the text there is no token to complain about
  have hfinish : ∀ r : Reader K, r.finish ≠ .error (.badNumber text) := fun r => by
    unfold Reader.finish
    split <;> simp
  induction ts generalizing r with
  | nil => exact hfinish r
  | cons t ts ih =>
    rw [List.forall_mem_cons] at hv
    rw [Reader.run]
    split
    next => exact hfinish r
    next =>
      split
      next => exact ih hv.2
      next e hstep =>
        obtain ⟨expected, rfl⟩ := Reader.step_blames hv.1 hstep
        simp

/-- **Every number in a text denotes a number**, provided that literals do: the number tokens are
literals, and so no text is rejected because of a number that denotes nothing, be it in an
expression or the value of a property. -/
theorem numbers_denote {K : Type} [Scalar K] (hK : ReadsLiterals K) (source : String) :
    (∀ t ∈ tokenize source, t.kind = .number → IsLiteral t.text.toList) ∧
      ∀ text, Program.ofString (K := K) source ≠ .error (.badNumber text) :=
  ⟨fun _ => isLiteral_of_mem_tokenize, Reader.run_ne_badNumber fun t ht hk =>
    hK t.text (isLiteral_of_mem_tokenize ht hk)⟩

/-- Numbers of every form, two of them in front of names that begin like exponents. -/
def numbered : String := "problem p \x7b scale .5e-1\n max 2.5E+3x + 1e2e - 7e_ \x7d"

theorem numbers_denote_numbered : ReadsLiterals Float ∧
    (∀ t ∈ tokenize numbered, t.kind = .number → IsLiteral t.text.toList) ∧
    ∀ text, Program.ofString (K := Float) numbered ≠ .error (.badNumber text) :=
  ⟨readsLiterals_float, numbers_denote readsLiterals_float numbered⟩

end Source

end CornerPoint
