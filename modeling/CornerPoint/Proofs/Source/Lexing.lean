import Mathlib.Data.List.TakeWhile
import CornerPoint.Number.Scalar
import CornerPoint.Proofs.Source.Tiling

/-!
# Texts that are one token

How long a token is depends on what follows it, so every statement here is about a text in
front of a rest: `Lexes kind text rest` says that the scanner cuts `text ++ rest` right behind
`text`, and `Lexes.tokens` is that cut. Operators and parentheses always are a token. Names and
numerals are one if nothing that would make them longer follows (`EndsName`, `EndsNumeral`). In
a written expression nothing does (`Delimited`), and a numeral may also be followed by a name,
unless that looks like an exponent (`endsNumeral_name`).

> `isNameToken_iff`: the names that the scanner reads as one token are words that are no
> keywords.
-/

namespace CornerPoint.Source

/-! ## Words and numerals -/

/-- A letter or `_`, and behind it letters, numerals and `_`. -/
def IsWord : List Char → Prop
  | [] => False
  | c :: cs => (Text.isAlphabetic c || c == '_') = true ∧ ∀ d ∈ cs, Lexeme.isNamePart d = true

/-- A word that is no keyword. -/
def IsName (cs : List Char) : Prop := IsWord cs ∧ Lexeme.nameKind cs = .name

/-- One or more digits. -/
def IsDigits (cs : List Char) : Prop := cs ≠ [] ∧ ∀ d ∈ cs, d.isDigit = true

/-- Digits, perhaps with a point and digits behind them. -/
def IsNumeral (cs : List Char) : Prop :=
  IsDigits cs ∨ ∃ whole places, IsDigits whole ∧ IsDigits places ∧ cs = whole ++ '.' :: places

/-- The text of the number is a numeral that denotes it. -/
def Legible {K : Type} [Scalar K] (n : K) : Prop :=
  IsNumeral (Scalar.text n).toList ∧ Scalar.ofText? (Scalar.text n) = some n

/-- Nothing follows, or a space, a closing parenthesis or a line end. -/
def Delimited (rest : List Char) : Prop := ∀ c ∈ rest.head?, c = ' ' ∨ c = ')' ∨ c = '\n'

theorem delimited_nil : Delimited [] := fun _ h => absurd h (by simp)

theorem delimited_space (rest : List Char) : Delimited (' ' :: rest) := by simp [Delimited]

theorem delimited_close (rest : List Char) : Delimited (')' :: rest) := by simp [Delimited]

theorem delimited_newline (rest : List Char) : Delimited ('\n' :: rest) := by simp [Delimited]

/-- What follows does not make a name longer. -/
def EndsName (rest : List Char) : Prop := ∀ d ∈ rest.head?, Lexeme.isNamePart d = false

/-- What follows does not make a numeral longer. -/
structure EndsNumeral (rest : List Char) : Prop where
  digit : ∀ d ∈ rest.head?, d.isDigit = false
  fraction : Lexeme.fraction rest = 0
  exponent : Lexeme.exponent rest = 0

/-- A blank or a parenthesis ends a name. -/
theorem Delimited.endsName {rest : List Char} (h : Delimited rest) : EndsName rest := by
  intro d hd
  rcases h d hd with rfl | rfl | rfl <;> decide

/-- It also ends a numeral. -/
theorem Delimited.endsNumeral {rest : List Char} (h : Delimited rest) : EndsNumeral rest := by
  cases rest with
  | nil => exact ⟨by simp, rfl, rfl⟩
  | cons d rest =>
    refine ⟨fun c hc => ?_, ?_, ?_⟩
    · rcases h c hc with rfl | rfl | rfl <;> rfl
    · rcases h d rfl with rfl | rfl | rfl <;> rfl
    · rcases h d rfl with rfl | rfl | rfl <;> rfl

/-- A numeral begins with a digit. -/
theorem IsNumeral.isDigit_head {c : Char} {cs : List Char} (h : IsNumeral (c :: cs)) :
    c.isDigit = true := by
  rcases h with h | ⟨whole, places, hwhole, _, heq⟩
  · exact h.2 c List.mem_cons_self
  · cases whole with
    | nil => exact absurd rfl hwhole.1
    | cons d whole =>
      obtain ⟨rfl, -⟩ := List.cons.inj heq
      exact hwhole.2 c List.mem_cons_self

/-- Letters are no digits. -/
theorem isAlphabetic_of_isDigit {c : Char} (h : c.isDigit = true) :
    Text.isAlphabetic c = false := by
  have hrange : 48 ≤ c.toNat ∧ c.toNat ≤ 57 := Char.isDigit_iff_toNat.mp h
  have hupper : c.isUpper = false := decide_eq_false fun hu => by
    have : 65 ≤ c.toNat := UInt32.le_iff_toNat_le.mp hu.1
    omega
  have hlower : c.isLower = false :=
    Bool.and_eq_false_iff.mpr (.inl (decide_eq_false fun hl => by
      have : 97 ≤ c.toNat := UInt32.le_iff_toNat_le.mp hl
      omega))
  rw [Text.isAlphabetic, if_pos (by omega)]
  exact Bool.or_eq_false_iff.mpr ⟨hupper, hlower⟩

namespace Lexeme

variable {c : Char} {cs rest : List Char}

/-- A run ends where something follows that does not belong to it. -/
theorem run_append {p : Char → Bool} (hcs : ∀ d ∈ cs, p d = true)
    (hrest : ∀ d ∈ rest.head?, p d = false) : run p (cs ++ rest) = cs.length := by
  rw [run, List.takeWhile_append_of_pos hcs]
  cases rest with
  | nil => simp
  | cons d rest => simp [hrest d rfl]

theorem take_run (p : Char → Bool) (cs : List Char) : cs.take (run p cs) = cs.takeWhile p :=
  (List.prefix_iff_eq_take.mp (List.takeWhile_prefix p)).symm

set_option maxRecDepth 8000 in -- `≤` and `≥` are looked up in the table of letters
/-- Letters, digits and `_` begin words and numerals, and nothing else. -/
theorem of_eq_word (h : (c.isDigit || (Text.isAlphabetic c || c == '_')) = true) :
    of c cs = word c cs := by
  unfold of
  split
  case h_18 => rfl
  all_goals exact absurd h (by decide)

/-- The first character of a word begins no numeral. -/
theorem not_numeral_head (h : (Text.isAlphabetic c || c == '_') = true) :
    (c.isDigit || (c == '.' && fraction (c :: cs) != 0)) = false := by
  have hdigit : c.isDigit = false := Bool.eq_false_iff.mpr fun hd => by
    rw [isAlphabetic_of_isDigit hd, Bool.false_or, beq_iff_eq] at h
    exact absurd hd (by rw [h]; decide)
  have hpoint : (c == '.') = false := beq_eq_false_iff_ne.mpr fun hp => by
    rw [hp] at h
    exact absurd h (by decide)
  rw [hdigit, hpoint, Bool.false_and, Bool.false_or]

/-- A word is a token, and its kind depends on nothing else. -/
theorem of_isWord (h : IsWord (c :: cs)) (hrest : EndsName rest) :
    of c (cs ++ rest) = ⟨nameKind (c :: cs), cs.length⟩ := by
  rw [of_eq_word (by rw [h.1, Bool.or_true]), word, not_numeral_head h.1,
    if_neg Bool.false_ne_true, if_pos h.1, run_append h.2 hrest]
  simp only [List.take_left]

/-- What is read as a name or a number begins like one. -/
theorem of_eq_word_of_kind : (of c cs).kind = .name ∨ (of c cs).kind = .number →
    of c cs = word c cs := by
  unfold of
  split
  case h_2 => unfold slash; split <;> exact nofun
  case h_7 | h_8 | h_9 => unfold relation; split <;> exact nofun
  case h_18 => exact fun _ => rfl
  all_goals exact nofun

/-- What is read as a name is a word that is no keyword. -/
theorem isName_of_kind (h : (of c cs).kind = .name) : IsName (c :: cs.take (of c cs).more) := by
  have heq := of_eq_word_of_kind (.inl h)
  rw [heq] at h ⊢
  unfold word at h ⊢
  split at h
  next => cases h
  next hnum =>
    split at h
    next hc =>
      rw [if_neg hnum, if_pos hc]
      refine ⟨⟨hc, fun d hd => ?_⟩, h⟩
      rw [take_run] at hd
      exact List.mem_takeWhile_imp hd
    next => cases h

/-! ## Numerals -/

/-- What is read as a number begins with a digit or a point. -/
theorem head_of_kind (h : (of c cs).kind = .number) : c.isDigit = true ∨ c = '.' := by
  have hname : ∀ cs, nameKind cs ≠ .number := fun cs => by
    unfold nameKind
    split <;> simp
  rw [of_eq_word_of_kind (.inr h)] at h
  unfold word at h
  split at h
  next hc =>
    simp only [Bool.or_eq_true, Bool.and_eq_true, beq_iff_eq] at hc
    exact hc.imp_right And.left
  next =>
    split at h
    next => exact absurd h (hname _)
    next => cases h

/-- A numeral is as long as it looks. -/
theorem number_append (h : IsNumeral cs) (hrest : EndsNumeral rest) :
    number (cs ++ rest) = cs.length := by
  obtain ⟨hdigit, hfraction, hexponent⟩ := hrest
  rcases h with h | ⟨whole, places, hwhole, hplaces, rfl⟩
  · simp only [number, run_append h.2 hdigit, List.drop_left, hfraction, hexponent, Nat.add_zero]
  -- the digits stop at the point, and behind the places comes no exponent
  · have hpoint : ∀ d ∈ ('.' :: (places ++ rest)).head?, d.isDigit = false := by simp
    have hlength : places.length ≠ 0 := fun h0 => hplaces.1 (List.length_eq_zero_iff.mp h0)
    have hdrop : (whole ++ '.' :: (places ++ rest)).drop (whole.length + (1 + places.length))
        = rest := by
      rw [← List.drop_drop, List.drop_left, Nat.add_comm, List.drop_succ_cons, List.drop_left]
    simp only [List.append_assoc, List.cons_append, number, run_append hwhole.2 hpoint,
      List.drop_left, fraction, run_append hplaces.2 hdigit, if_neg hlength, hdrop, hexponent,
      List.length_append, List.length_cons]
    omega

/-- A numeral is a token. -/
theorem of_isNumeral (h : IsNumeral (c :: cs)) (hrest : EndsNumeral rest) :
    of c (cs ++ rest) = ⟨.number, cs.length⟩ := by
  have hdigit := h.isDigit_head
  have hlength : number (c :: (cs ++ rest)) = cs.length + 1 := number_append h hrest
  rw [of_eq_word (by rw [hdigit, Bool.true_or]), word, hdigit, Bool.true_or, if_pos rfl, hlength,
    Nat.add_sub_cancel]

end Lexeme

/-! ## Numerals in front of names -/

/-- The characters begin like an exponent: with `e` or `E` and a digit. -/
def BeginsExponent (cs : List Char) : Prop :=
  ∃ e d rest, cs = e :: d :: rest ∧ (e = 'e' ∨ e = 'E') ∧ d.isDigit = true

section Glued

variable {c : Char} {cs rest : List Char}

/-- No exponent stands at the front of a word that does not begin like one. -/
theorem exponent_word (h : IsWord cs) (he : ¬BeginsExponent cs) (hrest : Delimited rest) :
    Lexeme.exponent (cs ++ rest) = 0 := by
  cases cs with
  | nil => exact h.elim
  | cons c cs =>
    by_cases hc : (c == 'e' || c == 'E') = true
    -- a letter `e` may stand first, but no digit follows it, with or without a sign
    · have hdigits :
          Lexeme.run Char.isDigit ((cs ++ rest).drop (Lexeme.sign (cs ++ rest))) = 0 := by
        cases cs with
        | nil =>
          cases rest with
          | nil => rfl
          | cons d rest => rcases hrest d rfl with rfl | rfl | rfl <;> rfl
        | cons d cs =>
          have hd : Lexeme.isNamePart d = true := h.2 d List.mem_cons_self
          have hsign : Lexeme.sign (d :: (cs ++ rest)) = 0 := by
            unfold Lexeme.sign
            split
            next heq => exact absurd hd (by rw [(List.cons.inj heq).1]; decide)
            next heq => exact absurd hd (by rw [(List.cons.inj heq).1]; decide)
            next => rfl
          have hdigit : d.isDigit = false := Bool.eq_false_iff.mpr fun hd => by
            rw [Bool.or_eq_true, beq_iff_eq, beq_iff_eq] at hc
            exact he ⟨c, d, cs, rfl, hc, hd⟩
          rw [List.cons_append, hsign, List.drop_zero, Lexeme.run, List.takeWhile_cons, hdigit]
          rfl
      rw [List.cons_append, Lexeme.exponent, hdigits]
      simp
    · rw [List.cons_append, Lexeme.exponent, Bool.eq_false_iff.mpr hc]
      simp

/-- A numeral may be followed by a name that does not begin like an exponent. -/
theorem endsNumeral_name (h : IsWord cs) (he : ¬BeginsExponent cs) (hrest : Delimited rest) :
    EndsNumeral (cs ++ rest) := by
  have hexponent := exponent_word h he hrest
  cases cs with
  | nil => exact h.elim
  | cons c cs =>
    have hhead : (c.isDigit || (c == '.' && Lexeme.fraction (c :: cs) != 0)) = false :=
      Lexeme.not_numeral_head h.1
    -- no further digit, no decimal places and no exponent
    refine ⟨fun d hd => ?_, ?_, hexponent⟩
    · obtain rfl : c = d := Option.some.inj hd
      exact (Bool.or_eq_false_iff.mp hhead).1
    · rw [List.cons_append]
      unfold Lexeme.fraction
      split
      next heq =>
        obtain ⟨rfl, -⟩ := List.cons.inj heq
        exact absurd h.1 (by decide)
      next => rfl

end Glued

/-! ## Tokens in front of a rest -/

/-- In front of `rest` the characters `text` are one token of the given kind. -/
def Lexes (kind : Token.Kind) (text rest : List Char) : Prop :=
  ∃ c cs, text = c :: cs ∧ isBlank c = false ∧ Lexeme.of c (cs ++ rest) = ⟨kind, cs.length⟩

section Pieces

variable {kind : Token.Kind} {text rest : List Char} {c : Char} {pos : Nat}

/-- The scanner cuts right behind the token. -/
theorem Lexes.tokens (h : Lexes kind text rest) (pos : Nat) :
    (Scanner.mk (text ++ rest) pos).tokens
      = ⟨kind, ⟨pos, pos + byteSize text⟩, String.ofList text⟩
        :: (Scanner.mk rest (pos + byteSize text)).tokens := by
  obtain ⟨c, cs, rfl, hc, hof⟩ := h
  rw [List.cons_append, Scanner.tokens, if_neg (Bool.eq_false_iff.mp hc), Scanner.after,
    Scanner.token, hof, List.take_left, List.drop_left]

/-- The same, without where the token stands. -/
theorem Lexes.cut (h : Lexes kind text rest) (pos : Nat) : ∃ t stop, t.kind = kind ∧
    t.text = String.ofList text ∧
      (Scanner.mk (text ++ rest) pos).tokens = t :: (Scanner.mk rest stop).tokens :=
  ⟨_, _, rfl, rfl, h.tokens pos⟩

theorem tokens_blank (hc : isBlank c = true) (cs : List Char) (pos : Nat) :
    (Scanner.mk (c :: cs) pos).tokens = (Scanner.mk cs (pos + c.utf8Size)).tokens := by
  rw [Scanner.tokens, if_pos hc]

/-- No blank begins a word or a numeral. -/
theorem not_blank (h : (c.isDigit || (Text.isAlphabetic c || c == '_')) = true) :
    isBlank c = false := by
  refine Bool.eq_false_iff.mpr fun hb => ?_
  simp only [isBlank, Bool.or_eq_true, beq_iff_eq] at hb
  rcases hb with (rfl | rfl) | rfl <;> exact absurd h (by decide)

/-- A word is cut off as one token, a keyword or a name. -/
theorem lexes_word (h : IsWord text) (hrest : EndsName rest) :
    Lexes (Lexeme.nameKind text) text rest := by
  cases text with
  | nil => exact h.elim
  | cons c cs =>
    exact ⟨c, cs, rfl, not_blank (by rw [h.1, Bool.or_true]), Lexeme.of_isWord h hrest⟩

theorem lexes_name (h : IsName text) (hrest : EndsName rest) : Lexes .name text rest :=
  h.2 ▸ lexes_word h.1 hrest

/-- A numeral is cut off as one token. -/
theorem lexes_numeral (h : IsNumeral text) (hrest : EndsNumeral rest) : Lexes .number text rest := by
  cases text with
  | nil =>
    rcases h with h | ⟨whole, places, _, _, heq⟩
    · exact absurd rfl h.1
    · exact absurd heq (by simp)
  | cons c cs =>
    exact ⟨c, cs, rfl, not_blank (by rw [h.isDigit_head, Bool.true_or]),
      Lexeme.of_isNumeral h hrest⟩

end Pieces

/-! ## Names -/

/-- The scanner reads the text as one token, which is a name. -/
def IsNameToken (name : String) : Prop :=
  ∃ t : Token, tokenize name = [t, .endAt name.utf8ByteSize] ∧ t.kind = .name ∧ t.text = name

/-- Every token but the end is what `Lexeme.of` says it is. -/
theorem exists_lexeme_of_mem_tokens (s : Scanner) :
    ∀ t ∈ s.tokens, t.kind ≠ .endOfInput → ∃ c cs, t.kind = (Lexeme.of c cs).kind ∧
      t.text.toList = c :: cs.take (Lexeme.of c cs).more := by
  fun_induction Scanner.tokens s with
  | case1 pos => exact List.forall_mem_singleton.mpr fun hk => absurd rfl hk
  | case2 c cs pos hc ih => exact ih
  | case3 c cs pos hc ih =>
    exact List.forall_mem_cons.mpr ⟨fun _ => ⟨c, cs, rfl, String.toList_ofList⟩, ih⟩

/-- Tokens that are numbers begin with a digit or a point. -/
theorem number_head_of_mem_tokens {s : Scanner} {t : Token} (ht : t ∈ s.tokens)
    (hk : t.kind = .number) :
    ∃ c cs, t.text.toList = c :: cs ∧ (c.isDigit = true ∨ c = '.') := by
  obtain ⟨c, cs, hkind, htext⟩ := exists_lexeme_of_mem_tokens s t ht (by rw [hk]; simp)
  exact ⟨c, _, htext, Lexeme.head_of_kind (hkind ▸ hk)⟩

/-- Tokens that are names are words that are no keywords. -/
theorem isName_of_mem_tokens {s : Scanner} {t : Token} (ht : t ∈ s.tokens)
    (hk : t.kind = .name) : IsName t.text.toList := by
  obtain ⟨c, cs, hkind, htext⟩ := exists_lexeme_of_mem_tokens s t ht (by rw [hk]; simp)
  exact htext ▸ Lexeme.isName_of_kind (hkind ▸ hk)

/-- The scanner reads exactly the words that are no keywords as one name. -/
theorem isNameToken_iff {name : String} : IsNameToken name ↔ IsName name.toList := by
  constructor
  · rintro ⟨t, htokens, hkind, htext⟩
    have hmem : t ∈ tokenize name := htokens ▸ List.mem_cons_self
    exact htext ▸ isName_of_mem_tokens hmem hkind
  · intro h
    have htokens := (lexes_name h delimited_nil.endsName).tokens 0
    rw [List.append_nil, Nat.zero_add, byteSize_toList, String.ofList_toList, Scanner.tokens]
      at htokens
    exact ⟨_, htokens, rfl, rfl⟩

end CornerPoint.Source
