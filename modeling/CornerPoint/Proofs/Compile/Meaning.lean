import Mathlib
import CornerPoint.Compile.Linear
import CornerPoint.Proofs.Plane.Exact

/-!
# What linear forms mean

An expression has a value wherever its variables do and no divisor is zero (`Expr.eval?`),
and it denotes a linear form when that form gives its value at every point. Lowering is
compared with this evaluation, in both directions:

> `lower_denotes`: the form that an expression is lowered to is the form it denotes.
> `lower_error_iff`: lowering fails exactly when some part of the expression offends, that
> is, when it is an unknown variable, a product of two forms that vary, or a quotient by a
> form that varies or is zero.

What offends is said of values alone. A form is determined by its values
(`Denotes.unique`), so it does not matter that lowering asks its own forms.
-/

namespace CornerPoint

/-! ## Evaluation -/

/-- The values of the two variables at a point. No other name has a value. -/
def Variables.assign (v : Variables) (p : Point ℚ) (name : String) : Option ℚ :=
  if name = v.x then some p.x else if name = v.y then some p.y else none

namespace Source

/-- The operator on numbers. A quotient by zero has no value. -/
def Operator.compute? : Operator → ℚ → ℚ → Option ℚ
  | .add, a, b => some (a + b)
  | .sub, a, b => some (a - b)
  | .mul, a, b => some (a * b)
  | .div, a, b => if b = 0 then none else some (a / b)

namespace Expr

/-- The value of an expression when variables have the values `env`. There is none if a
variable has no value or something is divided by zero. -/
def eval? (env : String → Option ℚ) : Expr ℚ → Option ℚ
  | number n => some n
  | var _ name => env name
  | neg e => (eval? env e).map (-·)
  | paren e => eval? env e
  | binary left op right =>
    match eval? env left, eval? env right with
    | some a, some b => op.compute? a b
    | _, _ => none

/-- The expression and everything it is composed of. -/
def parts {K : Type} : Expr K → List (Expr K)
  | number n => [number n]
  | var span name => [var span name]
  | neg e => neg e :: parts e
  | paren e => paren e :: parts e
  | binary left op right => binary left op right :: (parts left ++ parts right)

theorem self_mem_parts {K : Type} (e : Expr K) : e ∈ e.parts := by
  cases e <;> exact List.mem_cons_self ..

end Expr

end Source

namespace Compile

open Source (Expr Operator)

/-! ## Forms and their values -/

namespace Linear

variable {l r : Linear ℚ} {p : Point ℚ} {k : ℚ}

/-- The value of the form at a point. -/
def valueAt (l : Linear ℚ) (p : Point ℚ) : ℚ := l.a * p.x + l.b * p.y + l.c

/-- Some variable occurs in the form. -/
def Varies (l : Linear ℚ) : Prop := l.a ≠ 0 ∨ l.b ≠ 0

@[simp] theorem valueAt_constant : (constant k).valueAt p = k := by
  show 0 * p.x + 0 * p.y + k = k
  ring

@[simp] theorem valueAt_x : x.valueAt p = p.x := by
  show 1 * p.x + 0 * p.y + 0 = p.x
  ring

@[simp] theorem valueAt_y : y.valueAt p = p.y := by
  show 0 * p.x + 1 * p.y + 0 = p.y
  ring

@[simp] theorem valueAt_scale : (l.scale k).valueAt p = l.valueAt p * k := by
  show l.a * k * p.x + l.b * k * p.y + l.c * k = (l.a * p.x + l.b * p.y + l.c) * k
  ring

theorem valueAt_neg : (l.scale (-1)).valueAt p = -l.valueAt p := by
  rw [valueAt_scale, mul_neg, mul_one]

@[simp] theorem valueAt_add : (l.add r).valueAt p = l.valueAt p + r.valueAt p := by
  show (l.a + r.a) * p.x + (l.b + r.b) * p.y + (l.c + r.c)
    = (l.a * p.x + l.b * p.y + l.c) + (r.a * p.x + r.b * p.y + r.c)
  ring

@[simp] theorem valueAt_sub : (l.sub r).valueAt p = l.valueAt p - r.valueAt p := by
  rw [sub, valueAt_add, valueAt_neg, sub_eq_add_neg]

theorem isConstant_iff : l.isConstant = true ↔ l.a = 0 ∧ l.b = 0 := by
  rw [isConstant, Bool.and_eq_true, beq_iff_eq, beq_iff_eq]

theorem not_isConstant_iff : l.isConstant = false ↔ l.Varies := by
  rw [← Bool.not_eq_true, isConstant_iff, not_and_or, Varies]

/-- A form that does not vary has the same value everywhere. -/
theorem valueAt_of_isConstant (h : l.isConstant = true) : l.valueAt p = l.c := by
  obtain ⟨ha, hb⟩ := isConstant_iff.mp h
  rw [valueAt, ha, hb, zero_mul, zero_mul, zero_add, zero_add]

/-- A constant form is known by its constant. -/
theorem eq_constant_iff (h : l.isConstant = true) : l = constant k ↔ l.c = k := by
  obtain ⟨ha, hb⟩ := isConstant_iff.mp h
  constructor
  · intro heq
    rw [heq]
    rfl
  · intro hc
    exact Linear.ext ha hb hc

end Linear

/-- At every point the expression has a value, and it is that of the form. -/
def Denotes (v : Variables) (e : Expr ℚ) (l : Linear ℚ) : Prop :=
  ∀ p, e.eval? (v.assign p) = some (l.valueAt p)

/-- An expression denotes at most one form: its values at three points fix the form. -/
theorem Denotes.unique {v : Variables} {e : Expr ℚ} {l r : Linear ℚ} (hl : Denotes v e l)
    (hr : Denotes v e r) : l = r := by
  have hval : ∀ p, l.valueAt p = r.valueAt p := fun p =>
    Option.some.inj ((hl p).symm.trans (hr p))
  have h0 := hval ⟨0, 0⟩
  have hx := hval ⟨1, 0⟩
  have hy := hval ⟨0, 1⟩
  simp only [Linear.valueAt] at h0 hx hy
  exact Linear.ext (by linarith) (by linarith) (by linarith)

/-! ## Lowering keeps values -/

section Lowering

variable {v : Variables} {e left right : Expr ℚ} {op : Operator} {l f g : Linear ℚ}

/-- An operator on two lowered operands. -/
theorem lower_binary (hf : lower v left = .ok f) (hg : lower v right = .ok g) :
    lower v (.binary left op right) = match op with
      | .add => .ok (f.add g)
      | .sub => .ok (f.sub g)
      | .mul =>
        if f.isConstant then .ok (g.scale f.c)
        else if g.isConstant then .ok (f.scale g.c)
        else .error (.nonLinear (Expr.binary left op right).text)
      | .div =>
        if !g.isConstant then .error (.nonLinear (Expr.binary left op right).text)
        else if g.c == 0 then .error .divisionByZero
        else .ok (f.scale (1 / g.c)) := by
  cases op <;> simp only [lower, hf, hg]

/-- The operands of a lowered operation have been lowered. -/
theorem lower_operands (h : lower v (.binary left op right) = .ok l) :
    ∃ f g, lower v left = .ok f ∧ lower v right = .ok g := by
  rw [lower] at h
  cases hf : lower v left with
  | error err => rw [hf] at h; exact absurd h (by simp)
  | ok f =>
    cases hg : lower v right with
    | error err => rw [hf, hg] at h; exact absurd h (by simp)
    | ok g => exact ⟨f, g, rfl, rfl⟩

/-- What an operator does to forms is what it does to their values. -/
theorem compute?_valueAt (hf : lower v left = .ok f) (hg : lower v right = .ok g)
    (h : lower v (.binary left op right) = .ok l) (p : Point ℚ) :
    op.compute? (f.valueAt p) (g.valueAt p) = some (l.valueAt p) := by
  rw [lower_binary hf hg] at h
  cases op with
  | add =>
    obtain rfl := Except.ok.inj h
    rw [Operator.compute?, Linear.valueAt_add]
  | sub =>
    obtain rfl := Except.ok.inj h
    rw [Operator.compute?, Linear.valueAt_sub]
  | mul =>
    dsimp only at h
    rw [Operator.compute?]
    split at h
    next hconst =>
      -- the constant factor stands on the left, but forms are scaled from the right
      obtain rfl := Except.ok.inj h
      rw [Linear.valueAt_scale, Linear.valueAt_of_isConstant hconst, mul_comm]
    next =>
      split at h
      next hconst =>
        obtain rfl := Except.ok.inj h
        rw [Linear.valueAt_scale, Linear.valueAt_of_isConstant hconst]
      next => exact absurd h (by simp)
  | div =>
    dsimp only at h
    split at h
    next => exact absurd h (by simp)
    next hconst =>
      split at h
      next => exact absurd h (by simp)
      next hne =>
        obtain rfl := Except.ok.inj h
        rw [Bool.not_eq_true', Bool.not_eq_false] at hconst
        rw [Operator.compute?, Linear.valueAt_of_isConstant hconst,
          if_neg (fun h0 => hne (beq_iff_eq.mpr h0)), Linear.valueAt_scale]
        -- the quotient was computed as a product with the inverse
        exact congrArg some (by ring)

/-- **Lowering is sound.** The form that an expression is lowered to has the value of the
expression at every point; in particular no point makes it divide by zero. -/
theorem lower_denotes (h : lower v e = .ok l) : Denotes v e l := by
  induction e generalizing l with
  | number n =>
    intro p
    obtain rfl := Except.ok.inj h
    rw [Expr.eval?, Linear.valueAt_constant]
  | var span name =>
    intro p
    rw [lower] at h
    rw [Expr.eval?, Variables.assign]
    split at h
    next hx =>
      obtain rfl := Except.ok.inj h
      rw [if_pos hx, Linear.valueAt_x]
    next hx =>
      split at h
      next hy =>
        obtain rfl := Except.ok.inj h
        rw [if_neg hx, if_pos hy, Linear.valueAt_y]
      next => exact absurd h (by simp)
  | neg e ih =>
    intro p
    rw [lower] at h
    cases hf : lower v e with
    | error err => rw [hf] at h; exact absurd h (by simp)
    | ok f =>
      rw [hf] at h
      obtain rfl := Except.ok.inj h
      rw [Expr.eval?, ih hf p, Linear.valueAt_neg]
      rfl
  -- brackets are kept in the tree, and nothing is computed for them
  | paren e ih =>
    intro p
    rw [lower] at h
    rw [Expr.eval?]
    exact ih h p
  | binary left op right ihl ihr =>
    intro p
    obtain ⟨f, g, hf, hg⟩ := lower_operands h
    rw [Expr.eval?, ihl hf p, ihr hg p]
    exact compute?_valueAt hf hg h p

end Lowering

/-! ## When lowering fails -/

/-- What keeps an expression from having a linear form, when the expression itself is to
blame and not a part of it. -/
inductive Offends (v : Variables) : Expr ℚ → Prop
  /-- A variable that is neither of the two. -/
  | unknown {span : Source.Span} {name : String} (hx : name ≠ v.x) (hy : name ≠ v.y) :
    Offends v (.var span name)
  /-- A product of two forms that vary. -/
  | product {left right : Expr ℚ} {f g : Linear ℚ} (hf : Denotes v left f) (hfv : f.Varies)
    (hg : Denotes v right g) (hgv : g.Varies) : Offends v (.binary left .mul right)
  /-- A quotient by a form that varies or is zero. -/
  | quotient {left right : Expr ℚ} {g : Linear ℚ} (hg : Denotes v right g)
    (hgv : g.Varies ∨ g = .constant 0) : Offends v (.binary left .div right)

section Failure

variable {v : Variables} {e s left right : Expr ℚ} {op : Operator} {err : ExprError}

/-- An operation whose operands are lowered fails only by offending. -/
theorem offends_of_error {f g : Linear ℚ} (hf : lower v left = .ok f)
    (hg : lower v right = .ok g) (h : lower v (.binary left op right) = .error err) :
    Offends v (.binary left op right) := by
  rw [lower_binary hf hg] at h
  cases op with
  | add => exact absurd h (by simp)
  | sub => exact absurd h (by simp)
  -- sums never fail; a product does when neither side is constant
  | mul =>
    dsimp only at h
    split at h
    next => exact absurd h (by simp)
    next hfc =>
      split at h
      next => exact absurd h (by simp)
      next hgc =>
        rw [Bool.not_eq_true] at hfc hgc
        exact .product (lower_denotes hf) (Linear.not_isConstant_iff.mp hfc)
          (lower_denotes hg) (Linear.not_isConstant_iff.mp hgc)
  -- a quotient fails on a divisor that is not constant, or is the constant zero
  | div =>
    dsimp only at h
    split at h
    next hgc =>
      rw [Bool.not_eq_true'] at hgc
      exact .quotient (lower_denotes hg) (Or.inl (Linear.not_isConstant_iff.mp hgc))
    next hgc =>
      split at h
      next hzero =>
        rw [Bool.not_eq_true', Bool.not_eq_false] at hgc
        have heq := (Linear.eq_constant_iff hgc).mpr (beq_iff_eq.mp hzero)
        exact .quotient (lower_denotes hg) (Or.inr heq)
      next => exact absurd h (by simp)

/-- A failure can be traced to a part that offends. -/
theorem exists_offends_of_error (h : lower v e = .error err) : ∃ s ∈ e.parts, Offends v s := by
  induction e generalizing err with
  | number n => exact absurd h (by simp [lower])
  | var span name =>
    rw [lower] at h
    split at h
    next => exact absurd h (by simp)
    next hx =>
      split at h
      next => exact absurd h (by simp)
      next hy => exact ⟨_, Expr.self_mem_parts _, .unknown hx hy⟩
  | neg e ih =>
    rw [lower] at h
    cases hf : lower v e with
    | error err' =>
      obtain ⟨s, hs, hoff⟩ := ih hf
      exact ⟨s, List.mem_cons_of_mem _ hs, hoff⟩
    | ok f => rw [hf] at h; exact absurd h (by simp)
  | paren e ih =>
    rw [lower] at h
    obtain ⟨s, hs, hoff⟩ := ih h
    exact ⟨s, List.mem_cons_of_mem _ hs, hoff⟩
  -- the left operand is tried first; if both have a form, the operation itself offends
  | binary left op right ihl ihr =>
    cases hf : lower v left with
    | error err' =>
      obtain ⟨s, hs, hoff⟩ := ihl hf
      exact ⟨s, List.mem_cons_of_mem _ (List.mem_append_left _ hs), hoff⟩
    | ok f =>
      cases hg : lower v right with
      | error err' =>
        obtain ⟨s, hs, hoff⟩ := ihr hg
        exact ⟨s, List.mem_cons_of_mem _ (List.mem_append_right _ hs), hoff⟩
      | ok g => exact ⟨_, Expr.self_mem_parts _, offends_of_error hf hg h⟩

/-- What offends has no form. Whether its operands have one does not matter: if they do, it
is the form that they denote. -/
theorem Offends.lower_ne_ok (hoff : Offends v s) (l : Linear ℚ) : lower v s ≠ .ok l := by
  intro h
  cases hoff with
  | unknown hx hy =>
    rw [lower, if_neg hx, if_neg hy] at h
    exact absurd h (by simp)
  | product hf hfv hg hgv =>
    -- lowering computed forms of its own, which are those that the operands denote
    obtain ⟨f', g', hf', hg'⟩ := lower_operands h
    rw [hf.unique (lower_denotes hf')] at hfv
    rw [hg.unique (lower_denotes hg')] at hgv
    rw [lower_binary hf' hg', Linear.not_isConstant_iff.mpr hfv,
      Linear.not_isConstant_iff.mpr hgv] at h
    exact absurd h (by simp)
  | quotient hg hgv =>
    obtain ⟨f', g', hf', hg'⟩ := lower_operands h
    rw [hg.unique (lower_denotes hg')] at hgv
    rw [lower_binary hf' hg'] at h
    rcases hgv with hgv | hgv
    · rw [Linear.not_isConstant_iff.mpr hgv] at h
      exact absurd h (by simp)
    · rw [hgv] at h
      exact absurd h (by simp [Linear.constant, Linear.isConstant])

/-- An expression with a form has forms for all its parts. -/
theorem lower_parts {l : Linear ℚ} (h : lower v e = .ok l) :
    ∀ s ∈ e.parts, ∃ f, lower v s = .ok f := by
  induction e generalizing l with
  | number n =>
    intro s hs
    rw [List.mem_singleton.mp hs]
    exact ⟨l, h⟩
  | var span name =>
    intro s hs
    rw [List.mem_singleton.mp hs]
    exact ⟨l, h⟩
  | neg e ih =>
    intro s hs
    rcases List.mem_cons.mp hs with rfl | hs
    · exact ⟨l, h⟩
    · rw [lower] at h
      cases hf : lower v e with
      | error err => rw [hf] at h; exact absurd h (by simp)
      | ok f => exact ih hf s hs
  | paren e ih =>
    intro s hs
    rcases List.mem_cons.mp hs with rfl | hs
    · exact ⟨l, h⟩
    · rw [lower] at h
      exact ih h s hs
  -- the whole has a form by assumption, so only its operands are left
  | binary left op right ihl ihr =>
    intro s hs
    rcases List.mem_cons.mp hs with rfl | hs
    · exact ⟨l, h⟩
    · obtain ⟨f, g, hf, hg⟩ := lower_operands h
      rcases List.mem_append.mp hs with hs | hs
      · exact ihl hf s hs
      · exact ihr hg s hs

/-- **Lowering is complete.** It fails exactly when some part of the expression offends. -/
theorem lower_error_iff : (∃ err, lower v e = .error err) ↔ ∃ s ∈ e.parts, Offends v s := by
  constructor
  · intro h
    obtain ⟨err, h⟩ := h
    exact exists_offends_of_error h
  · intro h
    obtain ⟨s, hs, hoff⟩ := h
    cases he : lower v e with
    | error err => exact ⟨err, rfl⟩
    | ok l =>
      obtain ⟨f, hf⟩ := lower_parts he s hs
      exact absurd hf (hoff.lower_ne_ok f)

end Failure

end Compile

end CornerPoint
