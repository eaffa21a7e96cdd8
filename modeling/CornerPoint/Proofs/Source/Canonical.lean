import CornerPoint.Proofs.Number.Decimal
import CornerPoint.Proofs.Source.Writing

/-!
# Trees that come back from their text

A tree is canonical when it groups as its text does: sums and products lean to the left, what
binds looser stands in parentheses, and numbers have no sign of their own. Such a tree is its own
regrouping, so reading its text gives the tree back.

> `readsAs_of_canonical`: the text of a canonical expression is read as that expression, up to
> where its variables stand.

What is asked of the number type is that the text of an unsigned finite number is a numeral that
denotes it. For doubles this is a property of shortest decimals; for decimals among the
rationals it is `Decimal.legible_toRat`.
-/

namespace CornerPoint.Source

variable {K : Type} [Scalar K]

/-- Not negative, and not a zero that is written with a minus sign. -/
def Unsigned (n : K) : Prop := 0 ≤ n ∧ ¬1 / n < 0

/-- `Canonical level e`: the expression `e` is a sum, a product or a factor that groups as its
text does. -/
inductive Canonical : Level → Expr K → Prop
  | product {e} : Canonical .product e → Canonical .sum e
  | additive {left op right} : op.isAdditive = true → Canonical .sum left →
      Canonical .product right → Canonical .sum (.binary left op right)
  | factor {e} : Canonical .factor e → Canonical .product e
  | multiplicative {left op right} : op.isAdditive = false → Canonical .product left →
      Canonical .factor right → Canonical .product (.binary left op right)
  | neg {e} : Canonical .factor e → Canonical .factor (.neg e)
  | number {n} : Scalar.isFinite n = true → Unsigned n → Canonical .factor (.number n)
  | var {span name} : IsNameToken name → Canonical .factor (.var span name)
  | paren {e} : Canonical .sum e → Canonical .factor (.paren e)

/-- The numbers in the expression. -/
def Expr.numbers {K : Type} : Expr K → List K
  | number n => [n]
  | var _ _ => []
  | neg e => e.numbers
  | paren e => e.numbers
  | binary left _ right => left.numbers ++ right.numbers

/-- Where a sum, a product or a factor stands, regrouping leaves the expression as it is. -/
def Stays {K : Type} : Level → Expr K → Prop
  | .sum, e => e.regrouped = e
  | .product, e => ∀ sum, e.regroup ⟨sum, none, 0⟩ = (sum, e)
  | _, e => ∀ p : Pending K, e.regroup p = (p.sum, p.term e)

variable {level : Level} {e : Expr K}

/-- Canonical expressions group as their texts do. -/
theorem Canonical.stays (h : Canonical level e) : Stays level e := by
  induction h with
  | product _ ih =>
    show Expr.regrouped _ = _
    rw [Expr.regrouped, Pending.start, ih none]
    rfl
  -- the right operand is a product, so nothing but the operator waits in front of it
  | @additive left op right hop _ _ ihl ihr =>
    have hleft : left.regrouped = left := ihl
    show Expr.regrouped _ = _
    rw [Expr.regrouped_additive hop, hleft, ihr (some (left, op))]
    rfl
  | factor _ ih => exact fun sum => ih ⟨sum, none, 0⟩
  | @multiplicative left op right hop _ _ ihl ihr =>
    intro sum
    rw [Expr.regroup_multiplicative hop, ihl sum]
    exact ihr ⟨sum, some (left, op), 0⟩
  | @neg e _ ih =>
    intro p
    rw [Expr.regroup_neg, ih, Pending.term_negations_succ]
  | number => exact fun _ => rfl
  | var => exact fun _ => rfl
  | @paren e _ ih =>
    intro p
    rw [Expr.regroup_paren, show e.regrouped = e from ih]

/-- Canonical expressions are printable where their numbers are legible. -/
theorem Canonical.printable (h : Canonical level e)
    (hn : ∀ n ∈ e.numbers, Scalar.isFinite n = true → Unsigned n → Legible n) : e.Printable := by
  induction h with
  | product _ ih => exact ih hn
  | factor _ ih => exact ih hn
  | neg _ ih => exact ih hn
  | paren _ ih => exact ih hn
  | additive _ _ _ ihl ihr =>
    rw [Expr.numbers, List.forall_mem_append] at hn
    exact ⟨ihl hn.1, ihr hn.2⟩
  | multiplicative _ _ _ ihl ihr =>
    rw [Expr.numbers, List.forall_mem_append] at hn
    exact ⟨ihl hn.1, ihr hn.2⟩
  | number hfinite hsign => exact hn _ (List.mem_singleton_self _) hfinite hsign
  | var hname => exact isNameToken_iff.mp hname

/-- **Canonical expressions come back.** Read as an objective, the text of a canonical expression
is that expression, up to where its variables stand. -/
theorem readsAs_of_canonical (h : Canonical .sum e)
    (hn : ∀ n ∈ e.numbers, Scalar.isFinite n = true → Unsigned n → Legible n) :
    ∃ e', ReadsAs e.text e' ∧ e'.unspanned = e.unspanned := by
  obtain ⟨e', hread, he⟩ := readsAs_regrouped (h.printable hn)
  have hstays : e.regrouped = e := h.stays
  exact ⟨e', hread, hstays ▸ he⟩

/-- Signs in a row, parentheses under them, and a quotient that is subtracted. -/
def nested : Expr ℚ :=
  .binary
    (.binary (.neg (.neg (.paren (.binary (.var ⟨0, 2⟩ "x1") .sub (.number (5 / 2)))))) .mul
      (.number 2))
    .sub (.binary (.var ⟨3, 4⟩ "y") .div (.number 0))

/-- Two signs before a bracketed difference, a division by two, and a product with zero. -/
theorem canonical_nested : Canonical .sum nested := by
  have hx : IsName ['x', '1'] := ⟨⟨rfl, List.forall_mem_singleton.mpr rfl⟩, rfl⟩
  have hy : IsName ['y'] := ⟨⟨rfl, List.forall_mem_nil _⟩, rfl⟩
  have hnumber : ∀ {n : ℚ}, 0 ≤ n → Canonical .factor (.number n) := fun h =>
    .number rfl ⟨h, not_lt.mpr (one_div_nonneg.mpr h)⟩
  have hdifference : Canonical .sum (.binary (.var ⟨0, 2⟩ "x1") .sub (.number (5 / 2 : ℚ))) :=
    .additive rfl (.product (.factor (.var (isNameToken_iff.mpr hx))))
      (.factor (hnumber (by norm_num)))
  exact .additive rfl
    (.product (.multiplicative rfl (.factor (.neg (.neg (.paren hdifference))))
      (hnumber (by norm_num))))
    (.multiplicative rfl (.factor (.var (isNameToken_iff.mpr hy))) (hnumber le_rfl))

/-- Its numbers are decimals. -/
theorem legible_nested : ∀ n ∈ nested.numbers, Scalar.isFinite n = true → Unsigned n →
    Legible n := by
  have hhalves : Decimal.toRat ⟨25, -1⟩ = 5 / 2 := by cbv
  have htwo : Decimal.toRat ⟨2, 0⟩ = 2 := by cbv
  have hzero : Decimal.toRat ⟨0, 0⟩ = 0 := by cbv
  intro n hn _ _
  obtain rfl | rfl | rfl : n = 5 / 2 ∨ n = 2 ∨ n = 0 := by
    simpa [nested, Expr.numbers] using hn
  · exact hhalves ▸ Decimal.legible_toRat _
  · exact htwo ▸ Decimal.legible_toRat _
  · exact hzero ▸ Decimal.legible_toRat _

/-- It is printed with no other brackets than its own, and read back. -/
theorem readsAs_of_canonical_nested : Canonical .sum nested ∧
    (∀ n ∈ nested.numbers, Scalar.isFinite n = true → Unsigned n → Legible n) ∧
    nested.text = "--(x1 - 2.5) * 2 - y / 0" ∧
    ∃ e', ReadsAs nested.text e' ∧ e'.unspanned = nested.unspanned :=
  ⟨canonical_nested, legible_nested, by cbv,
    readsAs_of_canonical canonical_nested legible_nested⟩

end CornerPoint.Source
