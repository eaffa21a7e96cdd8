import Mathlib
import CornerPoint.Compile.Problem
import CornerPoint.Proofs.Compile.Meaning
import CornerPoint.Proofs.Source.Accepted

/-!
# What a displayed expression means

An implicit product binds tighter than any operator, but its text shows a `*` like any other. So
the text of an expression can group otherwise than the expression does, and it is a matter of
algebra whether it means the same. A sign or a factor in front of an implicit product may be
multiplied with its number first:

    -(k x) = (-k) x        l * (k x) = (l * k) x

which holds of linear forms and of the failures to find one (`combine_scale`). A divisor may not:
`l / (k x)` is displayed as `l / k * x`.

> `lower_reread`: the text of every expression of an accepted source is read, and where no divisor
> is a product it has the linear form of the expression or fails for the same reason.

`lower_reread_ne` shows two sources in which a divisor is a product, and whose texts mean something
else. One of the texts is met in a message.
-/

namespace CornerPoint

namespace Source.Expr

/-- An operation, perhaps behind signs. Where a factor stands in a text, this is an implicit
product. -/
def isCompound {K : Type} : Expr K → Bool
  | neg e => e.isCompound
  | binary .. => true
  | _ => false

/-- No divisor in the expression is an implicit product. -/
def SimpleDivisors {K : Type} : Expr K → Prop
  | neg e => e.SimpleDivisors
  | paren e => e.SimpleDivisors
  | binary left op right =>
    left.SimpleDivisors ∧ right.SimpleDivisors ∧ (op = .div → right.isCompound = false)
  | _ => True

end Source.Expr

namespace Compile

open Source (Expr Operator Pending Program Level Derives ReadsAs)

/-! ## Meanings -/

/-- The failure without the text that it quotes. -/
def ExprError.kind : ExprError → ExprError
  | .unknownVariable name => .unknownVariable name
  | .nonLinear _ => .nonLinear ""
  | .divisionByZero => .divisionByZero

/-- A linear form, or why there is none. -/
abbrev Meaning := Except ExprError (Linear ℚ)

/-- The linear form of an expression, or why it has none. -/
def meaning (v : Variables) (e : Expr ℚ) : Meaning := (lower v e).mapError ExprError.kind

namespace Meaning

/-- The operator on forms. -/
def compute : Operator → Linear ℚ → Linear ℚ → Meaning
  | .add, l, r => .ok (l.add r)
  | .sub, l, r => .ok (l.sub r)
  | .mul, l, r =>
    if l.isConstant then .ok (r.scale l.c)
    else if r.isConstant then .ok (l.scale r.c)
    else .error (.nonLinear "")
  | .div, l, r =>
    if !r.isConstant then .error (.nonLinear "")
    else if r.c == 0 then .error .divisionByZero
    else .ok (l.scale (1 / r.c))

/-- The operator on meanings: the first failure counts. -/
def combine (op : Operator) : Meaning → Meaning → Meaning
  | .error e, _ => .error e
  | .ok _, .error e => .error e
  | .ok l, .ok r => compute op l r

/-- The meaning times a number. -/
def scale (m : Meaning) (k : ℚ) : Meaning := m.map (·.scale k)

end Meaning

section Composition

variable {v : Variables} {e left right : Expr ℚ} {op : Operator}

theorem meaning_number (n : ℚ) : meaning v (.number n) = .ok (.constant n) := rfl

theorem meaning_neg : meaning v (.neg e) = (meaning v e).scale (-1) := by
  rw [meaning, meaning, lower]
  cases lower v e <;> rfl

theorem meaning_paren : meaning v (.paren e) = meaning v e := rfl

/-- The meaning of an operation depends on the meanings of its operands only. -/
theorem meaning_binary : meaning v (.binary left op right)
    = Meaning.combine op (meaning v left) (meaning v right) := by
  rw [meaning, meaning, meaning, lower]
  cases lower v left with
  | error err => rfl
  | ok l =>
    cases lower v right with
    | error err => rfl
    | ok r =>
      cases op with
      | add => rfl
      | sub => rfl
      | mul | div =>
        show Except.mapError _ (ite _ _ _) = ite _ _ _
        split
        · rfl
        · split <;> rfl

/-- Where variables stand does not matter to the meaning. -/
theorem meaning_unspanned (e : Expr ℚ) : meaning v e.unspanned = meaning v e := by
  induction e with
  | number n => rfl
  | var span name => rfl
  | neg e ih => rw [Expr.unspanned, meaning_neg, ih, meaning_neg]
  | paren e ih => rw [Expr.unspanned, meaning_paren, ih, meaning_paren]
  | binary left op right ihl ihr => rw [Expr.unspanned, meaning_binary, ihl, ihr, meaning_binary]

end Composition

/-! ## Moving numbers around -/

namespace Linear

variable {l : Linear ℚ} {k m : ℚ}

theorem scale_scale : (l.scale k).scale m = l.scale (k * m) := by
  simp only [scale, mul_assoc]

theorem scale_zero : l.scale 0 = constant 0 := by
  simp only [scale, mul_zero]
  rfl

theorem constant_scale : (constant k).scale m = constant (k * m) :=
  Linear.ext (zero_mul m) (zero_mul m) rfl

theorem isConstant_constant : (constant k).isConstant = true := isConstant_iff.mpr ⟨rfl, rfl⟩

/-- A factor other than zero does not change which variables occur. -/
theorem isConstant_scale (hk : k ≠ 0) : (l.scale k).isConstant = l.isConstant := by
  rw [Bool.eq_iff_iff, isConstant_iff, isConstant_iff, scale, mul_eq_zero_iff_right hk,
    mul_eq_zero_iff_right hk]

end Linear

namespace Meaning

variable {l r : Linear ℚ} {m n : Meaning} {k j : ℚ}

/-- A constant on the left is multiplied into the form on the right. -/
theorem compute_mul_left (hl : l.isConstant = true) : compute .mul l r = .ok (r.scale l.c) := by
  rw [compute, if_pos hl]

theorem compute_mul_right (hl : l.isConstant = false) (hr : r.isConstant = true) :
    compute .mul l r = .ok (l.scale r.c) := by
  rw [compute, if_neg (Bool.eq_false_iff.mp hl), if_pos hr]

/-- Two forms that vary have no linear product. -/
theorem compute_mul_error (hl : l.isConstant = false) (hr : r.isConstant = false) :
    compute .mul l r = .error (.nonLinear "") := by
  rw [compute, if_neg (Bool.eq_false_iff.mp hl), if_neg (Bool.eq_false_iff.mp hr)]

theorem compute_mul_constant : compute .mul l (.constant k) = .ok (l.scale k) := by
  cases hl : l.isConstant with
  | true =>
    have heq : l = .constant l.c := (Linear.eq_constant_iff hl).mpr rfl
    rw [compute_mul_left hl, Linear.constant_scale, heq, Linear.constant_scale, mul_comm]
    rfl
  | false => rw [compute_mul_right hl Linear.isConstant_constant]; rfl

/-- A number may be moved from one factor to the other. -/
theorem compute_mul_scale : compute .mul (l.scale k) r = compute .mul l (r.scale k) := by
  -- scaled by zero a form becomes constant, and the test for constants tells them apart
  by_cases hk : k = 0
  · rw [hk, Linear.scale_zero, Linear.scale_zero, compute_mul_constant,
      compute_mul_left Linear.isConstant_constant, Linear.scale_zero]
    exact congrArg Except.ok Linear.scale_zero
  · have hlk := Linear.isConstant_scale (l := l) hk
    have hrk := Linear.isConstant_scale (l := r) hk
    cases hl : l.isConstant with
    | true =>
      rw [compute_mul_left hl, compute_mul_left (hlk.trans hl), Linear.scale_scale, mul_comm k]
      rfl
    | false =>
      cases hr : r.isConstant with
      | true =>
        rw [compute_mul_right hl (hrk.trans hr), compute_mul_right (hlk.trans hl) hr,
          Linear.scale_scale, mul_comm k]
        rfl
      | false =>
        rw [compute_mul_error hl (hrk.trans hr), compute_mul_error (hlk.trans hl) hr]

theorem scale_scale : (m.scale k).scale j = m.scale (k * j) := by
  cases m with
  | error e => rfl
  | ok l => exact congrArg Except.ok Linear.scale_scale

theorem scale_one : m.scale 1 = m := by
  cases m with
  | error e => rfl
  | ok l => exact congrArg Except.ok (Linear.ext (mul_one _) (mul_one _) (mul_one _))

/-- A number in front scales. -/
theorem combine_constant : combine .mul (.ok (.constant k)) m = m.scale k := by
  cases m with
  | error e => rfl
  | ok l => exact compute_mul_left Linear.isConstant_constant

/-- **Products regroup.** A number between two factors may be multiplied with either of them. -/
theorem combine_scale :
    combine .mul (combine .mul m (.ok (.constant k))) n = combine .mul m (n.scale k) := by
  cases m with
  | error e => rfl
  | ok l =>
    have hinner : combine .mul (.ok l) (.ok (.constant k)) = .ok (l.scale k) :=
      compute_mul_constant
    rw [hinner]
    cases n with
    | error e => rfl
    | ok r => exact compute_mul_scale

end Meaning

/-! ## The meaning of the regrouped tree -/

section Regrouping

variable {v : Variables} {p : Pending ℚ} {e x y : Expr ℚ} {n : ℚ}

/-- What signs in a row amount to. -/
theorem meaning_negate (k : Nat) :
    meaning v (Pending.negate k e) = (meaning v e).scale ((-1) ^ k) := by
  induction k with
  | zero => rw [Pending.negate, pow_zero, Meaning.scale_one]
  | succ k ih => rw [Pending.negate, meaning_neg, ih, Meaning.scale_scale, pow_succ]

/-- The meaning of a term depends on the meaning of its operand only. -/
theorem meaning_term_congr (h : meaning v x = meaning v y) :
    meaning v (p.term x) = meaning v (p.term y) := by
  obtain ⟨sum, product, k⟩ := p
  cases product with
  | none =>
    show meaning v (Pending.negate k x) = meaning v (Pending.negate k y)
    rw [meaning_negate, meaning_negate, h]
  | some waiting =>
    show meaning v (.binary waiting.1 waiting.2 (Pending.negate k x))
      = meaning v (.binary waiting.1 waiting.2 (Pending.negate k y))
    rw [meaning_binary, meaning_binary, meaning_negate, meaning_negate, h]

/-- Behind signs and factors, an implicit product means the same when its number is multiplied
with them first. -/
theorem meaning_multiplier (hp : ∀ l op, p.product = some (l, op) → op = .mul) :
    meaning v (.binary (p.term (.number n)) .mul x)
      = meaning v (p.term (.binary (.number n) .mul x)) := by
  obtain ⟨sum, product, k⟩ := p
  have hnumber : meaning v (Pending.negate k (.number n)) = .ok (.constant (n * (-1) ^ k)) := by
    rw [meaning_negate, meaning_number]
    exact congrArg Except.ok Linear.constant_scale
  have hproduct : meaning v (Pending.negate k (.binary (.number n) .mul x))
      = (meaning v x).scale (n * (-1) ^ k) := by
    rw [meaning_negate, meaning_binary, meaning_number, Meaning.combine_constant,
      Meaning.scale_scale]
  -- a factor may be waiting, and then both multiplications come after it
  cases product with
  | none =>
    show meaning v (.binary (Pending.negate k _) .mul x) = meaning v (Pending.negate k _)
    rw [meaning_binary, hnumber, Meaning.combine_constant, hproduct]
  | some waiting =>
    obtain ⟨l, op⟩ := waiting
    obtain rfl := hp l op rfl
    show meaning v (.binary (.binary l .mul (Pending.negate k _)) .mul x)
      = meaning v (.binary l .mul (Pending.negate k _))
    rw [meaning_binary, meaning_binary, hnumber, Meaning.combine_scale, meaning_binary, hproduct]

/-- What waits in front of the expression may be multiplied or divided by it before the rest of
its factors: it is a factor in front, or a dividend and the expression is no product. -/
def Fits (p : Pending ℚ) (e : Expr ℚ) : Prop :=
  ∀ l op, p.product = some (l, op) → op = .mul ∨ e.isCompound = false

/-- Regrouping leaves the meaning of a sum, a product or a factor as it is. -/
def KeepsMeaning (v : Variables) : Level → Expr ℚ → Prop
  | .sum, e => meaning v e.regrouped = meaning v e
  | .product, e => ∀ sum, (e.regroup ⟨sum, none, 0⟩).1 = sum ∧
      meaning v (e.regroup ⟨sum, none, 0⟩).2 = meaning v e
  | .paren, e => ∃ x, e = .paren x ∧ meaning v x.regrouped = meaning v x
  | _, e => ∀ p : Pending ℚ, Fits p e →
      (e.regroup p).1 = p.sum ∧ meaning v (e.regroup p).2 = meaning v (p.term e)

/-- An implicit product. -/
theorem keepsMeaning_multiplier (hx : ∀ p, x.regroup p = (p.sum, p.term y))
    (hy : meaning v y = meaning v x) : KeepsMeaning v .operand (.binary (.number n) .mul x) := by
  intro p hp
  have hmul : ∀ l op, p.product = some (l, op) → op = .mul := fun l op h =>
    (hp l op h).resolve_right (by simp [Expr.isCompound])
  rw [Expr.regroup_multiplicative rfl, Expr.regroup_number, hx]
  refine ⟨rfl, ?_⟩
  show meaning v (.binary (p.term (.number n)) .mul y) = _
  rw [meaning_binary, hy, ← meaning_binary, meaning_multiplier hmul]

/-- Whatever derives from tokens keeps its meaning if it has only simple divisors. -/
theorem keepsMeaning_of_derives {level : Level} {i : Bool} {ts : List Source.Token}
    (h : Derives level i ts e) (hd : e.SimpleDivisors) : KeepsMeaning v level e := by
  induction h with
  -- a sum starts with nothing pending; every other level is read behind what is pending
  | @product i ts e _ ih =>
    obtain ⟨hsum, hterm⟩ := ih hd none
    show meaning v (Expr.regrouped e) = meaning v e
    rw [Expr.regrouped, Pending.start, hsum]
    exact hterm
  | @additive i ts left g t op us right _ _ ht _ ihl ihr =>
    have hleft : meaning v left.regrouped = meaning v left := ihl hd.1
    obtain ⟨hsum, hterm⟩ := ihr hd.2.1 (some (left.regrouped, op))
    show meaning v (Expr.regrouped _) = _
    rw [Expr.regrouped_additive (Operator.isAdditive_of_additive? ht), hsum]
    show meaning v (.binary left.regrouped op _) = _
    rw [meaning_binary, hleft, hterm, ← meaning_binary]
  | factor _ ih =>
    exact fun sum => ih hd ⟨sum, none, 0⟩ fun l op h => by cases h
  | @multiplicative i ts left g t op us right _ _ ht _ ihl ihr =>
    intro sum
    obtain ⟨hsum, hterm⟩ := ihl hd.1 sum
    have hop := Operator.isAdditive_of_multiplicative? ht
    have hfits : Fits ⟨sum, some ((left.regroup ⟨sum, none, 0⟩).2, op), 0⟩ right := by
      intro l op' h
      obtain ⟨-, rfl⟩ : _ ∧ op = op' := by simpa using h
      cases op with
      | mul => exact .inl rfl
      -- only here it matters that divisors are simple
      | div => exact .inr (hd.2.2 rfl)
      | add | sub => cases hop
    obtain ⟨hsum', hterm'⟩ := ihr hd.2.1 _ hfits
    rw [Expr.regroup_multiplicative hop, hsum]
    refine ⟨hsum', ?_⟩
    rw [hterm', Source.Pending.term_next, meaning_binary, hterm, ← meaning_binary]
  | operand _ _ ih => exact ih hd
  | @minus i t ts e _ _ ih =>
    intro p hp
    obtain ⟨hsum, hterm⟩ := ih hd { p with negations := p.negations + 1 } hp
    refine ⟨hsum, ?_⟩
    rw [Expr.regroup_neg, hterm, Source.Pending.term_negations_succ]
  | plus _ _ ih => exact ih hd
  | number => exact fun _ _ => ⟨rfl, rfl⟩
  | name => exact fun _ _ => ⟨rfl, rfl⟩
  | @paren i ts e _ ih =>
    obtain ⟨x, rfl, hx⟩ := ih hd
    intro p _
    exact ⟨rfl, meaning_term_congr hx⟩
  | numberName => exact keepsMeaning_multiplier (fun _ => rfl) rfl
  | numberParen _ _ ih =>
    obtain ⟨x, rfl, hx⟩ := ih hd.2.1
    exact keepsMeaning_multiplier (fun _ => rfl) hx
  | enclosed _ _ _ _ ih => exact ⟨_, rfl, ih hd⟩

end Regrouping

/-! ## Texts that are read again -/

/-- **When a displayed expression keeps its meaning.** The text of an expression of an accepted
source, or of a part of one, is read, and as the regrouped tree. If no divisor in it is an
implicit product, that tree has the linear form of the expression, or both fail for the same
reason. -/
theorem lower_reread {source : String} {p : Program ℚ} (hp : Program.ofString source = .ok p)
    {e part : Expr ℚ} (he : e ∈ p.exprs) (hpart : part ∈ e.parts) :
    ∃ e', ReadsAs part.text e' ∧ e'.unspanned = part.regrouped.unspanned ∧
      (part.SimpleDivisors → ∀ v,
        (lower v e').mapError ExprError.kind = (lower v part).mapError ExprError.kind) := by
  obtain ⟨i, ts, hd, hprintable⟩ := Source.exists_derives hp he hpart
  obtain ⟨e', hread, hspans⟩ := Source.readsAs_regrouped hprintable
  refine ⟨e', hread, hspans, fun hsimple v => ?_⟩
  have hkeeps : meaning v part.regrouped = meaning v part := keepsMeaning_of_derives hd hsimple
  calc meaning v e'
      = meaning v e'.unspanned := (meaning_unspanned e').symm
    _ = meaning v part.regrouped := by rw [hspans, meaning_unspanned]
    _ = meaning v part := hkeeps

/-- Implicit products behind a factor, behind a sign and as a dividend. -/
def products : Expr ℚ :=
  .binary
    (.binary (.number 3) .mul (.neg (.binary (.number 2) .mul
      (.paren (.binary (.var ⟨23, 25⟩ "x2") .sub (.number (3 / 2)))))))
    .add (.binary (.binary (.number 6) .mul (.var ⟨37, 39⟩ "x1")) .div (.number 3))

/-- A program that maximizes it. -/
def productsProgram : Program ℚ :=
  ⟨[.ofItems ⟨0, 45⟩ "p" [.objective ⟨⟨12, 43⟩, .maximize, products⟩]]⟩

theorem ofString_products : Program.ofString
    (Source.objectiveSource "3 * -2(x2 - 1.5) + 6 x1 / 3") = .ok productsProgram := by cbv

/-- The only divisor is a plain number, so the text of the products is read back with their
meaning. -/
theorem lower_reread_products :
    Program.ofString (Source.objectiveSource "3 * -2(x2 - 1.5) + 6 x1 / 3") = .ok productsProgram ∧
    products ∈ productsProgram.exprs ∧ products ∈ products.parts ∧ products.SimpleDivisors ∧
    products.text = "3 * -2 * (x2 - 1.5) + 6 * x1 / 3" ∧
    ∃ e', ReadsAs products.text e' ∧ e'.unspanned = products.regrouped.unspanned ∧
      ∀ v, (lower v e').mapError ExprError.kind = (lower v products).mapError ExprError.kind := by
  have hmem : products ∈ productsProgram.exprs := List.mem_cons_self
  have hself : products ∈ products.parts := Expr.self_mem_parts products
  have hsimple : products.SimpleDivisors := by
    simp [products, Expr.SimpleDivisors, Expr.isCompound]
  obtain ⟨e', hread, hspans, hsame⟩ := lower_reread ofString_products hmem hself
  exact ⟨ofString_products, hmem, hself, hsimple, by cbv, e', hread, hspans,
    hsame hsimple⟩

/-- A quotient by the implicit product `2(4)`. -/
def quotient : Expr ℚ :=
  .binary (.var ⟨16, 18⟩ "x1") .div (.binary (.number 2) .mul (.paren (.number 4)))

/-- What its text is read as: the quotient by `2`, times `(4)`. -/
def reread : Expr ℚ :=
  .binary (.binary (.var ⟨16, 18⟩ "x1") .div (.number 2)) .mul (.paren (.number 4))

/-- A program that maximizes the quotient. -/
def quotientProgram : Program ℚ :=
  ⟨[.ofItems ⟨0, 27⟩ "p" [.objective ⟨⟨12, 25⟩, .maximize, quotient⟩]]⟩

/-- A quotient by the implicit product `2 x2`. -/
def ratio : Expr ℚ :=
  .binary (.number 5) .div (.binary (.number 2) .mul (.var ⟨22, 24⟩ "x2"))

/-- What its text is read as: the quotient by `2`, times `x2`. -/
def ratioReread : Expr ℚ :=
  .binary (.binary (.number 5) .div (.number 2)) .mul (.var ⟨24, 26⟩ "x2")

/-- A problem that maximizes it. -/
def ratioProblem : Source.Problem ℚ :=
  .ofItems ⟨0, 26⟩ "p" [.objective ⟨⟨12, 24⟩, .maximize, ratio⟩]

/-- Printed without parentheses the divisor `2 x2` loses its second factor. -/
theorem lower_ratio : lower .standard ratio = .error (.nonLinear "5 / 2 * x2") := by cbv

/-- The text is met in the message with which the problem is rejected. -/
theorem compile_ratioProblem : (compile ratioProblem).mapError CompileError.message =
    .error "Expression is not linear: 5 / 2 * x2" := by
  have hvars : variablesOf ratioProblem = .ok .standard := rfl
  have hlines : ratioProblem.objectives = [⟨⟨12, 24⟩, .maximize, ratio⟩] := rfl
  rw [compile, programOf, hvars]
  simp only [objectiveOf, hlines, lower_ratio]
  rfl

/-- **A displayed expression can mean something else.** The source divides `x1` by `2(4)`, which
is an eighth of `x1`; the displayed text is twice `x1`. A source that divides by `2 x2` is rejected
as not linear, and the message quotes a text that is. -/
theorem lower_reread_ne :
    (Program.ofString (Source.objectiveSource "x1 / 2(4)") = .ok quotientProgram ∧
      quotient ∈ quotientProgram.exprs ∧ quotient.text = "x1 / 2 * (4)" ∧
      ReadsAs quotient.text reread ∧
      lower .standard quotient = .ok ⟨1 / 8, 0, 0⟩ ∧ lower .standard reread = .ok ⟨2, 0, 0⟩) ∧
    Program.ofString (Source.objectiveSource "5 / 2 x2") = .ok ⟨[ratioProblem]⟩ ∧
    lower .standard ratio = .error (.nonLinear "5 / 2 * x2") ∧
    (compile ratioProblem).mapError CompileError.message =
      .error "Expression is not linear: 5 / 2 * x2" ∧
    ReadsAs "5 / 2 * x2" ratioReread ∧ lower .standard ratioReread = .ok ⟨0, 5 / 2, 0⟩ := by
  have htext : quotient.text = "x1 / 2 * (4)" := by cbv
  have hread : ReadsAs "x1 / 2 * (4)" reread := ⟨⟨0, 30⟩, ⟨12, 28⟩, by cbv⟩
  have hratio : ReadsAs "5 / 2 * x2" ratioReread := ⟨⟨0, 28⟩, ⟨12, 26⟩, by cbv⟩
  exact ⟨⟨by cbv, List.mem_cons_self, htext, htext ▸ hread, by cbv, by cbv⟩,
    by cbv, lower_ratio, compile_ratioProblem, hratio, by cbv⟩

end Compile

end CornerPoint
