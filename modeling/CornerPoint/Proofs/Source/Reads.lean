import CornerPoint.Proofs.Source.Grammar

/-!
# What the reader of expressions does with a token

A token either belongs to the expression, and then `stepOperand_more` and `stepOperator_more`
say in which of a few ways, or it ends the expression, or it is wrong. A number that has just
been read is `Settled`: all tokens but those that it would multiply treat it like any other
complete operand.
-/

namespace CornerPoint.Source

variable {K : Type}

/-! ## Blanks -/

theorem Blank.nil {lines : Bool} : Blank lines [] := by simp [Blank]

theorem Blank.append {lines : Bool} {ts us : List Token} (ht : Blank lines ts)
    (hu : Blank lines us) : Blank lines (ts ++ us) := fun t h =>
  (List.mem_append.mp h).elim (ht t) (hu t)

/-- A blank is a comment, or a line end where these are skipped. -/
theorem blank_singleton {lines : Bool} {t : Token} :
    Blank lines [t] ↔ t.kind = .comment ∨ lines = true ∧ t.kind = .newline := by
  simp [Blank]

theorem blank_cons {lines : Bool} {t : Token} {ts : List Token} :
    Blank lines (t :: ts) ↔ Blank lines [t] ∧ Blank lines ts := by
  simp [Blank]

/-- Line ends and comments are what may stand between declarations. -/
theorem blank_true_singleton {t : Token} : Blank true [t] ↔ t.kind.isTrivia = true := by
  simp [blank_singleton, Token.Kind.isTrivia, or_comm]

/-! ## Numbers -/

/-- If the token is a number, its text denotes one. -/
def Token.Valid (K : Type) [Scalar K] (t : Token) : Prop :=
  t.kind = .number → (Scalar.ofText? t.text : Option K).isSome = true

/-- A token that is no number has nothing to denote. -/
theorem Token.valid_of_ne [Scalar K] {t : Token} (h : t.kind ≠ .number) : t.Valid K :=
  fun hk => absurd hk h

theorem Token.number_eq [Scalar K] {t : Token} {n : K} (h : Scalar.ofText? t.text = some n) :
    t.number = n := by
  rw [Token.number, h, Option.getD_some]

/-- A valid number token denotes its number. -/
theorem Token.Valid.ofText?_eq [Scalar K] {t : Token} (h : t.Valid K) (ht : t.kind = .number) :
    Scalar.ofText? t.text = some (t.number : K) := by
  obtain ⟨value, hv⟩ := Option.isSome_iff_exists.mp (h ht)
  simp [Token.number, hv]

namespace ExprReader

/-- Whether a parenthesis is open. -/
abbrev inside (outer : List (Outer K)) : Bool := !outer.isEmpty

/-! ## One token -/

/-- The ways in which a token goes on where an operand must follow. -/
theorem stepOperand_more [Scalar K] {p : Pending K} {outer : List (Outer K)} {t : Token}
    {r : ExprReader K} (h : stepOperand p outer t = .more r) :
    Blank (inside outer) [t] ∧ r = .operand p outer
      ∨ t.kind = .minus ∧ r = .operand { p with negations := p.negations + 1 } outer
      ∨ t.kind = .plus ∧ r = .operand p outer
      ∨ t.kind = .number ∧ r = .number t.number p outer
      ∨ t.kind = .name ∧ r = afterOperand p (.var t.span t.text) outer
      ∨ t.kind = .openParen ∧ r = .operand .start (⟨none, p⟩ :: outer) := by
  unfold stepOperand at h
  split at h
  case h_2 =>
    split at h <;> simp_all [blank_singleton]
  case h_5 =>
    split at h
    · simp_all [Token.number]
    · cases h
  all_goals simp_all [blank_singleton]

/-- The ways in which a token goes on where an operator may follow. -/
theorem stepOperator_more {sum : Awaiting K} {term : Expr K} {outer : List (Outer K)} {t : Token}
    {r : ExprReader K} (h : stepOperator sum term outer t = .more r) :
    Blank (inside outer) [t] ∧ r = .operator sum term outer
      ∨ (∃ op, t.kind.multiplicative? = some op ∧ r = .operand ⟨sum, some (term, op), 0⟩ outer)
      ∨ (∃ op, t.kind.additive? = some op ∧
          r = .operand ⟨some (sum.apply term, op), none, 0⟩ outer)
      ∨ ∃ o os, outer = o :: os ∧ t.kind = .closeParen ∧
          r = afterOperand o.pending (enclosed o.multiplier (sum.apply term)) os := by
  unfold stepOperator at h
  split at h
  -- a closing parenthesis, a blank, or else the end of the expression
  case h_6 =>
    split at h
    · cases h
    · split at h
      · cases h
        exact .inr (.inr (.inr ⟨_, _, rfl, ‹_›, rfl⟩))
      · split at h <;> simp_all [blank_singleton]
  all_goals simp_all [blank_singleton, Token.Kind.multiplicative?, Token.Kind.additive?]

/-- Blanks leave everything as it is where an operand must follow. -/
theorem stepOperand_blank [Scalar K] {p : Pending K} {outer : List (Outer K)} {t : Token}
    (h : Blank (inside outer) [t]) : stepOperand p outer t = .more (.operand p outer) := by
  obtain hc | ⟨ho, hn⟩ := blank_singleton.mp h
  · simp [stepOperand, hc]
  · simp_all [stepOperand]

/-- Blanks leave everything as it is where an operator may follow. -/
theorem stepOperator_blank {sum : Awaiting K} {term : Expr K} {outer : List (Outer K)} {t : Token}
    (h : Blank (inside outer) [t]) :
    stepOperator sum term outer t = .more (.operator sum term outer) := by
  obtain hc | ⟨ho, hn⟩ := blank_singleton.mp h
  · simp [stepOperator, hc]
  · cases outer with
    | nil => simp at ho
    | cons o os => simp [stepOperator, hn]

/-- An operator between factors awaits the next factor. -/
theorem stepOperator_multiplicative {sum : Awaiting K} {term : Expr K} {outer : List (Outer K)}
    {t : Token} {op : Operator} (h : t.kind.multiplicative? = some op) :
    stepOperator sum term outer t = .more (.operand ⟨sum, some (term, op), 0⟩ outer) := by
  unfold Token.Kind.multiplicative? at h
  split at h <;> simp_all [stepOperator]

/-- An operator between terms completes the term in front of it and awaits the next one. -/
theorem stepOperator_additive {sum : Awaiting K} {term : Expr K} {outer : List (Outer K)}
    {t : Token} {op : Operator} (h : t.kind.additive? = some op) :
    stepOperator sum term outer t =
      .more (.operand ⟨some (sum.apply term, op), none, 0⟩ outer) := by
  unfold Token.Kind.additive? at h
  split at h <;> simp_all [stepOperator]

/-- The tokens that end an expression outside all parentheses, once it is complete. -/
def Ends (k : Token.Kind) : Prop :=
  k ≠ .comment ∧ k ≠ .star ∧ k ≠ .slash ∧ k ≠ .plus ∧ k ≠ .minus ∧ k ≠ .name ∧ k ≠ .openParen

/-- Outside all parentheses every other token ends the expression. -/
theorem stepOperator_ended {sum : Awaiting K} {term : Expr K} {t : Token} (h : Ends t.kind) :
    stepOperator sum term [] t = .ended (sum.apply term) := by
  obtain ⟨h₁, h₂, h₃, h₄, h₅, -, -⟩ := h
  unfold stepOperator
  split <;> simp_all

/-- An expression only ends outside all parentheses, where an operator could have followed. -/
theorem stepOperator_eq_ended {sum : Awaiting K} {term e : Expr K} {outer : List (Outer K)}
    {t : Token} (h : stepOperator sum term outer t = .ended e) :
    outer = [] ∧ e = sum.apply term := by
  unfold stepOperator at h
  split at h
  case h_6 =>
    split at h
    · simp_all
    · split at h
      · cases h
      · split at h <;> cases h
  all_goals cases h

/-- Where an operand must follow the expression does not end. -/
theorem stepOperand_ne_ended [Scalar K] {p : Pending K} {outer : List (Outer K)} {t : Token}
    {e : Expr K} : stepOperand p outer t ≠ .ended e := by
  unfold stepOperand
  split
  case h_2 => split <;> simp
  case h_5 => split <;> simp
  all_goals simp

/-- Neither a colon nor the end belongs to an expression. -/
theorem step_more_kind [Scalar K] {r s : ExprReader K} {t : Token} (h : r.step t = .more s) :
    t.kind ≠ .colon ∧ t.kind ≠ .endOfInput := by
  -- needed behind an operand, and behind a number that multiplies nothing
  have hoperator : ∀ {sum term outer}, stepOperator sum term outer t = .more s →
      t.kind ≠ .colon ∧ t.kind ≠ .endOfInput := by
    intro sum term outer h
    have := stepOperator_more h
    constructor <;> intro ht <;>
      simp [ht, blank_singleton, Token.Kind.multiplicative?, Token.Kind.additive?] at this
  cases r with
  | operand p outer =>
    have := stepOperand_more h
    constructor <;> intro ht <;> simp [ht, blank_singleton] at this
  | operator sum term outer => exact hoperator h
  | number value p outer =>
    simp only [step] at h
    split at h
    next ht => simp [ht]
    next ht => simp [ht]
    next => exact hoperator h

/-! ## Complete operands -/

/-- Everything but what a number would multiply finds a complete operand. -/
def Settled [Scalar K] (r : ExprReader K) (sum : Awaiting K) (term : Expr K)
    (outer : List (Outer K)) : Prop :=
  ∀ t, t.kind ≠ .name → t.kind ≠ .openParen → r.step t = stepOperator sum term outer t

theorem settled_operator [Scalar K] (sum : Awaiting K) (term : Expr K) (outer : List (Outer K)) :
    Settled (.operator sum term outer) sum term outer := fun _ _ _ => rfl

theorem settled_number [Scalar K] (value : K) (p : Pending K) (outer : List (Outer K)) :
    Settled (.number value p outer) p.sum (p.term (.number value)) outer := by
  intro t hn hp
  simp only [step]

/-- A complete expression ends at every token that does not go on with it. -/
theorem Settled.ended [Scalar K] {r : ExprReader K} {sum : Awaiting K} {term : Expr K}
    (h : Settled r sum term []) {t : Token} (ht : Ends t.kind) :
    r.step t = .ended (sum.apply term) := by
  rw [h t ht.2.2.2.2.2.1 ht.2.2.2.2.2.2, stepOperator_ended ht]

/-- An operator between factors follows a complete operand. -/
theorem Settled.multiplicative [Scalar K] {r : ExprReader K} {sum : Awaiting K} {term : Expr K}
    {outer : List (Outer K)} (h : Settled r sum term outer) {t : Token} {op : Operator}
    (ht : t.kind.multiplicative? = some op) :
    r.step t = .more (.operand ⟨sum, some (term, op), 0⟩ outer) := by
  rw [h t (fun hn => by simp [hn, Token.Kind.multiplicative?] at ht)
    (fun hp => by simp [hp, Token.Kind.multiplicative?] at ht), stepOperator_multiplicative ht]

/-- An operator between terms follows a complete operand. -/
theorem Settled.additive [Scalar K] {r : ExprReader K} {sum : Awaiting K} {term : Expr K}
    {outer : List (Outer K)} (h : Settled r sum term outer) {t : Token} {op : Operator}
    (ht : t.kind.additive? = some op) :
    r.step t = .more (.operand ⟨some (sum.apply term, op), none, 0⟩ outer) := by
  rw [h t (fun hn => by simp [hn, Token.Kind.additive?] at ht)
    (fun hp => by simp [hp, Token.Kind.additive?] at ht), stepOperator_additive ht]

/-! ## Several tokens -/

/-- `Reads r ts s`: after the tokens `ts`, all of which belong to the expression, the reader
`r` has become `s`. -/
inductive Reads [Scalar K] (r : ExprReader K) : List Token → ExprReader K → Prop
  | refl : Reads r [] r
  | snoc {ts t s u} : Reads r ts s → s.step t = .more u → Reads r (ts ++ [t]) u

namespace Reads

variable [Scalar K]

theorem single {r s : ExprReader K} {t : Token} (h : r.step t = .more s) : Reads r [t] s :=
  .snoc .refl h

theorem trans {r s u : ExprReader K} {ts us : List Token} (h : Reads r ts s)
    (h' : Reads s us u) : Reads r (ts ++ us) u := by
  induction h' with
  | refl => simpa using h
  | snoc _ hstep ih => simpa using ih.snoc hstep

theorem cons {r s u : ExprReader K} {t : Token} {ts : List Token} (h : r.step t = .more s)
    (h' : Reads s ts u) : Reads r (t :: ts) u := (single h).trans h'

theorem eq_of_nil {r s : ExprReader K} (h : Reads r [] s) : s = r := by
  generalize hus : [] = us at h
  cases h with
  | refl => rfl
  | snoc => simp at hus

/-- The first step of a reading, though readings grow at their end. -/
theorem of_cons {r u : ExprReader K} {t : Token} {ts : List Token} (h : Reads r (t :: ts) u) :
    ∃ s, r.step t = .more s ∧ Reads s ts u := by
  generalize hus : t :: ts = us at h
  induction h generalizing ts with
  | refl => cases hus
  | @snoc vs x s u hread hstep ih =>
    cases vs with
    | nil =>
      obtain ⟨rfl, rfl⟩ := List.cons.inj hus
      exact ⟨u, hread.eq_of_nil ▸ hstep, .refl⟩
    | cons v vs =>
      obtain ⟨rfl, rfl⟩ := List.cons.inj hus
      obtain ⟨s', hs', hread⟩ := ih rfl
      exact ⟨s', hs', .snoc hread hstep⟩

/-- The end does not belong to an expression. -/
theorem ne_end {r s : ExprReader K} {ts : List Token} (h : Reads r ts s) :
    ∀ t ∈ ts, t.kind ≠ .endOfInput := by
  induction h with
  | refl => simp
  | snoc _ hstep ih =>
    simp only [List.forall_mem_append, List.forall_mem_singleton]
    exact ⟨ih, (step_more_kind hstep).2⟩

/-- Blanks may stand in front of an operand. -/
theorem operand_blank {p : Pending K} {outer : List (Outer K)} {g : List Token}
    (h : Blank (inside outer) g) : Reads (.operand p outer) g (.operand p outer) := by
  induction g with
  | nil => exact .refl
  | cons t g ih =>
    obtain ⟨ht, hg⟩ := blank_cons.mp h
    exact .cons (stepOperand_blank ht) (ih hg)

/-- Blanks may stand in front of an operator. -/
theorem operator_blank {sum : Awaiting K} {term : Expr K} {outer : List (Outer K)}
    {g : List Token} (h : Blank (inside outer) g) :
    Reads (.operator sum term outer) g (.operator sum term outer) := by
  induction g with
  | nil => exact .refl
  | cons t g ih =>
    obtain ⟨ht, hg⟩ := blank_cons.mp h
    exact .cons (stepOperator_blank ht) (ih hg)

end Reads

/-- Blanks behind a complete operand leave it complete. -/
theorem Settled.blank [Scalar K] {r : ExprReader K} {sum : Awaiting K} {term : Expr K}
    {outer : List (Outer K)} (h : Settled r sum term outer) {g : List Token}
    (hg : Blank (inside outer) g) : ∃ s, Reads r g s ∧ Settled s sum term outer := by
  cases g with
  | nil => exact ⟨r, .refl, h⟩
  | cons t g =>
    obtain ⟨ht, hg⟩ := blank_cons.mp hg
    have hkind := blank_singleton.mp ht
    have hstep : r.step t = .more (.operator sum term outer) := by
      rw [h t (by rintro hn; simp [hn] at hkind) (by rintro hn; simp [hn] at hkind),
        stepOperator_blank ht]
    exact ⟨_, .cons hstep (.operator_blank hg), settled_operator _ _ _⟩

end ExprReader

end CornerPoint.Source
