import Mathlib
import CornerPoint.Proofs.Source.Advance

/-!
# A text that is moved

Offsets are only copied, and compared when a problem is closed. So a reader that is given the
same tokens at other offsets does the same, at the other offsets: `relocate f` replaces every
offset by its image under `f`, in tokens, trees, errors and in the reader itself, and all steps
commute with it (`Reader.step_relocate`) as long as `f` keeps the order. The reader also does the
same behind other complete problems (`Reader.step_behind`). Runs follow by induction on the
tokens: `Reader.run_relocate`, `Reader.run_behind`.

With `f` adding a constant this is a text behind another one, with `f` constant it is a text
without its spans.
-/

namespace CornerPoint.Source

variable {K : Type} (f : Nat → Nat)

/-! ## Offsets in data -/

def Span.relocate (s : Span) : Span := ⟨f s.start, f s.stop⟩

def Token.relocate (t : Token) : Token := { t with span := t.span.relocate f }

def SyntaxError.relocate : SyntaxError → SyntaxError
  | .unexpected expected found span => .unexpected expected found (span.relocate f)
  | e => e

/-- What is read at other offsets, or the error at its other offset. -/
def SyntaxError.relocated {α β : Type} (g : α → β) : Except SyntaxError α → Except SyntaxError β
  | .ok x => .ok (g x)
  | .error e => .error (e.relocate f)

def Expr.relocate : Expr K → Expr K
  | number value => number value
  | var span name => var (span.relocate f) name
  | neg e => neg e.relocate
  | paren e => paren e.relocate
  | binary left op right => binary left.relocate op right.relocate

def Property.relocate (x : Property K) : Property K := { x with span := x.span.relocate f }

def VariableList.relocate (x : VariableList) : VariableList := { x with span := x.span.relocate f }

def ObjectiveLine.relocate (x : ObjectiveLine K) : ObjectiveLine K :=
  { x with span := x.span.relocate f, expr := x.expr.relocate f }

def ConstraintLine.relocate (x : ConstraintLine K) : ConstraintLine K :=
  { x with
    span := x.span.relocate f
    lhs := x.lhs.relocate f
    rhs := x.rhs.relocate f }

def Problem.relocate (p : Problem K) : Problem K where
  span := p.span.relocate f
  name := p.name
  properties := p.properties.map (Property.relocate f)
  vars := p.vars.map (VariableList.relocate f)
  objectives := p.objectives.map (ObjectiveLine.relocate f)
  constraints := p.constraints.map (ConstraintLine.relocate f)

def Program.relocate (p : Program K) : Program K := ⟨p.problems.map (Problem.relocate f)⟩

/-! ## Offsets in readers -/

def Awaiting.relocate (a : Awaiting K) : Awaiting K := a.map fun x => (x.1.relocate f, x.2)

def Pending.relocate (p : Pending K) : Pending K :=
  { p with sum := p.sum.relocate f, product := p.product.relocate f }

def Outer.relocate (o : Outer K) : Outer K := { o with pending := o.pending.relocate f }

def ExprReader.relocate : ExprReader K → ExprReader K
  | .operand pending outer => .operand (pending.relocate f) (outer.map (Outer.relocate f))
  | .number value pending outer =>
    .number value (pending.relocate f) (outer.map (Outer.relocate f))
  | .operator sum term outer =>
    .operator (sum.relocate f) (term.relocate f) (outer.map (Outer.relocate f))

def ExprStep.relocate : ExprStep K → ExprStep K
  | .more reader => .more (reader.relocate f)
  | .ended e => .ended (e.relocate f)
  | .wrong expected => .wrong expected
  | .badNumber => .badNumber

def Purpose.relocate : Purpose K → Purpose K
  | .objective start sense => .objective (f start) sense
  | .left start label => .left (f start) label
  | .right start label lhs relation => .right (f start) label (lhs.relocate f) relation

def Place.relocate : Place K → Place K
  | .body => .body
  | .property start name colon => .property (f start) name colon
  | .varName start names => .varName (f start) names
  | .afterVariable start names comma => .afterVariable (f start) names comma
  | .blockBrace => .blockBrace
  | .block => .block
  | .labelOrOperand name => .labelOrOperand (name.relocate f)
  | .expr purpose reader => .expr (purpose.relocate f) (reader.relocate f)

def Phase.relocate : Phase K → Phase K
  | .outside => .outside
  | .name start => .name (start.relocate f)
  | .brace start title => .brace (start.relocate f) title
  | .inside p place => .inside (p.relocate f) (place.relocate f)

def Reader.relocate (r : Reader K) : Reader K :=
  ⟨r.problems.map (Problem.relocate f), r.phase.relocate f, f r.last⟩

variable {f}

@[simp] theorem Token.relocate_kind (t : Token) : (t.relocate f).kind = t.kind := rfl
@[simp] theorem Token.relocate_text (t : Token) : (t.relocate f).text = t.text := rfl
@[simp] theorem Token.relocate_span (t : Token) : (t.relocate f).span = t.span.relocate f := rfl

/-- The order of offsets is all that the least span around two depends on. -/
theorem Span.relocate_merge (hf : Monotone f) (a b : Span) :
    (a.merge b).relocate f = (a.relocate f).merge (b.relocate f) := by
  simp only [relocate, merge, hf.map_min, hf.map_max]

/-! ## Reading an expression -/

theorem Awaiting.relocate_apply (a : Awaiting K) (e : Expr K) :
    (a.apply e).relocate f = (a.relocate f).apply (e.relocate f) := by
  cases a <;> rfl

theorem Pending.relocate_term (p : Pending K) (e : Expr K) :
    (p.term e).relocate f = (p.relocate f).term (e.relocate f) := by
  have hnegate : ∀ n, (negate n e).relocate f = negate n (e.relocate f) := fun n => by
    induction n with
    | zero => rfl
    | succ n ih => rw [negate, Expr.relocate, ih, negate]
  rw [term, Awaiting.relocate_apply, hnegate]
  rfl

theorem ExprReader.relocate_afterOperand (pending : Pending K) (e : Expr K)
    (outer : List (Outer K)) : (afterOperand pending e outer).relocate f
      = afterOperand (pending.relocate f) (e.relocate f) (outer.map (Outer.relocate f)) := by
  rw [afterOperand, relocate, Pending.relocate_term]
  rfl

theorem ExprReader.relocate_enclosed (multiplier : Option K) (e : Expr K) :
    (enclosed multiplier e).relocate f = enclosed multiplier (e.relocate f) := by
  cases multiplier <;> rfl

/-- Where an operand must follow, moving a token moves the outcome. -/
theorem ExprReader.stepOperand_relocate [Scalar K] (pending : Pending K) (outer : List (Outer K))
    (t : Token) : stepOperand (pending.relocate f) (outer.map (Outer.relocate f)) (t.relocate f)
      = (stepOperand pending outer t).relocate f := by
  simp only [stepOperand, Token.relocate_kind, Token.relocate_text]
  split
  case h_2 => cases outer <;> rfl
  case h_5 => split <;> rfl
  case h_6 => rw [ExprStep.relocate, relocate_afterOperand]; rfl
  all_goals rfl

/-- Where an operator may follow, moving a token moves the outcome. -/
theorem ExprReader.stepOperator_relocate (sum : Awaiting K) (term : Expr K)
    (outer : List (Outer K)) (t : Token) :
    stepOperator (sum.relocate f) (term.relocate f) (outer.map (Outer.relocate f)) (t.relocate f)
      = (stepOperator sum term outer t).relocate f := by
  simp only [stepOperator, Token.relocate_kind, ← Awaiting.relocate_apply]
  split
  case h_6 =>
    cases outer with
    | nil => rfl
    | cons o outer =>
      simp only [List.map_cons]
      split
      · rw [ExprStep.relocate, relocate_afterOperand, relocate_enclosed]; rfl
      · split <;> rfl
  all_goals rfl

/-- **Reading expressions does not depend on where the tokens stand.** -/
theorem ExprReader.step_relocate [Scalar K] (r : ExprReader K) (t : Token) :
    (r.relocate f).step (t.relocate f) = (r.step t).relocate f := by
  cases r with
  | operand pending outer => exact stepOperand_relocate pending outer t
  | operator sum term outer => exact stepOperator_relocate sum term outer t
  | number value pending outer =>
    simp only [relocate, step, Token.relocate_kind]
    split
    · rw [ExprStep.relocate, relocate_afterOperand]; rfl
    · rfl
    · rw [← stepOperator_relocate, Pending.relocate_term]; rfl

/-! ## Reading a problem -/

theorem Problem.addProperty_relocate (p : Problem K) (x : Property K) :
    (p.relocate f).addProperty (x.relocate f) = (p.addProperty x).relocate f := by
  simp [addProperty, relocate]

theorem Problem.addObjective_relocate (p : Problem K) (x : ObjectiveLine K) :
    (p.relocate f).addObjective (x.relocate f) = (p.addObjective x).relocate f := by
  simp [addObjective, relocate]

theorem Problem.addConstraint_relocate (p : Problem K) (x : ConstraintLine K) :
    (p.relocate f).addConstraint (x.relocate f) = (p.addConstraint x).relocate f := by
  simp [addConstraint, relocate]

namespace Reader

open SyntaxError (relocated)

/-- A step inside a problem at other offsets. -/
def relocateBody (f : Nat → Nat) (x : Problem K × Option (Place K)) :
    Problem K × Option (Place K) :=
  (x.1.relocate f, x.2.map (Place.relocate f))

/-- The token that ends a line may stand anywhere. -/
theorem endLine_relocate (t : Token) (p : Problem K) (inside : Place K)
    (outside : Option (Place K)) :
    endLine (t.relocate f) (p.relocate f) (inside.relocate f) (outside.map (Place.relocate f))
      = relocated f (relocateBody f) (endLine t p inside outside) := by
  simp only [endLine, Token.relocate_kind]
  split <;> rfl

theorem stepBody_relocate (p : Problem K) (t : Token) :
    stepBody (p.relocate f) (t.relocate f) = relocated f (relocateBody f) (stepBody p t) := by
  simp only [stepBody, Token.relocate_kind]
  split <;> rfl

/-- Moving the tokens moves the property they set, and nothing else. -/
theorem stepProperty_relocate [Scalar K] (p : Problem K) (start : Nat) (name : String)
    (colon : Bool) (t : Token) :
    stepProperty (p.relocate f) (f start) name colon (t.relocate f)
      = relocated f (relocateBody f) (stepProperty p start name colon t) := by
  have hset : ∀ value : Value K,
      .ok ((p.relocate f).addProperty ⟨⟨f start, f t.span.stop⟩, name, value⟩, some .body)
        = relocated f (relocateBody f)
          (.ok (p.addProperty ⟨⟨start, t.span.stop⟩, name, value⟩, some .body)) := fun value => by
    rw [relocated, relocateBody, ← Problem.addProperty_relocate]; rfl
  simp only [stepProperty, Token.relocate_kind, Token.relocate_text]
  split
  case h_1 => exact hset _
  case h_2 =>
    split
    · exact hset _
    · rfl
  case h_3 => exact hset _
  case h_4 => split_ifs <;> rfl
  case h_5 => rfl

/-- Moving the tokens moves the list of variables they make, and nothing else. -/
theorem stepAfterVariable_relocate (p : Problem K) (last start : Nat) (names : List String)
    (comma : Bool) (t : Token) :
    stepAfterVariable (p.relocate f) (f last) (f start) names comma (t.relocate f)
      = relocated f (relocateBody f) (stepAfterVariable p last start names comma t) := by
  simp only [stepAfterVariable, Token.relocate_kind]
  split
  · split <;> rfl
  · rfl
  · exact endLine_relocate t (p.setVariables ⟨⟨start, last⟩, names⟩) .body none

/-- Behind an expression: the declaration that it completes is moved. -/
theorem stepAfterExpr_relocate (p : Problem K) (last : Nat) (purpose : Purpose K) (e : Expr K)
    (t : Token) :
    stepAfterExpr (p.relocate f) (f last) (purpose.relocate f) (e.relocate f) (t.relocate f)
      = relocated f (relocateBody f) (stepAfterExpr p last purpose e t) := by
  cases purpose with
  | objective start sense =>
    rw [stepAfterExpr, ← endLine_relocate, ← Problem.addObjective_relocate]; rfl
  | left start label =>
    simp only [Purpose.relocate, stepAfterExpr, Token.relocate_kind]
    split <;> rfl
  | right start label lhs relation =>
    rw [stepAfterExpr, ← endLine_relocate, ← Problem.addConstraint_relocate]; rfl

/-- In an expression: the declaration that it belongs to is moved. -/
theorem stepExpr_relocate [Scalar K] (p : Problem K) (last : Nat) (purpose : Purpose K)
    (reader : ExprReader K) (t : Token) :
    stepExpr (p.relocate f) (f last) (purpose.relocate f) (reader.relocate f) (t.relocate f)
      = relocated f (relocateBody f) (stepExpr p last purpose reader t) := by
  rw [stepExpr, ExprReader.step_relocate, stepExpr]
  cases reader.step t with
  | more reader => rfl
  | ended e => exact stepAfterExpr_relocate p last purpose e t
  | wrong expected => rfl
  | badNumber => rfl

/-- **A step inside a problem does not depend on where the tokens stand.** At every place it moves
along with them. -/
theorem stepInside_relocate [Scalar K] (p : Problem K) (last : Nat) (place : Place K)
    (t : Token) :
    stepInside (p.relocate f) (f last) (place.relocate f) (t.relocate f)
      = relocated f (relocateBody f) (stepInside p last place t) := by
  cases place with
  | body => exact stepBody_relocate p t
  | property start name colon => exact stepProperty_relocate p start name colon t
  | varName start names =>
    simp only [stepInside, apply_ite (relocated f (relocateBody f))]
    rfl
  | afterVariable start names comma => exact stepAfterVariable_relocate p last start names comma t
  | blockBrace =>
    simp only [stepInside, apply_ite (relocated f (relocateBody f))]
    rfl
  | block =>
    simp only [Place.relocate, stepInside, Token.relocate_kind]
    split
    -- a row without a label is moved with its first token
    case h_5 => exact stepExpr_relocate p last (.left t.span.start none) .start t
    all_goals rfl
  | labelOrOperand name =>
    simp only [stepInside, apply_ite (relocated f (relocateBody f)), ← stepExpr_relocate,
      ExprReader.relocate_afterOperand]
    rfl
  | expr purpose reader => exact stepExpr_relocate p last purpose reader t

/-! ## Reading a text -/

/-- A step between problems at other offsets. -/
def relocatePhase (f : Nat → Nat) (x : List (Problem K) × Phase K) :
    List (Problem K) × Phase K :=
  (x.1.map (Problem.relocate f), x.2.relocate f)

/-- At the end of the text nothing depends on where it stands. -/
theorem finish_relocate (r : Reader K) :
    (r.relocate f).finish = relocated f (Program.relocate f) r.finish := by
  obtain ⟨problems, phase, last⟩ := r
  cases phase <;> rfl

variable [Scalar K]

/-- Outside the problems too: only that spans are put together asks that the order is kept. -/
theorem stepPhase_relocate (hf : Monotone f) (ps : List (Problem K)) (last : Nat)
    (phase : Phase K) (t : Token) :
    stepPhase (ps.map (Problem.relocate f)) (f last) (phase.relocate f) (t.relocate f)
      = relocated f (relocatePhase f) (stepPhase ps last phase t) := by
  cases phase with
  | outside | name | brace =>
    simp only [stepPhase, apply_ite (relocated f (relocatePhase f))]
    rfl
  | inside p place =>
    simp only [Phase.relocate, stepPhase, stepInside_relocate]
    cases stepInside p last place t with
    | error e => rfl
    | ok x =>
      obtain ⟨q, place'⟩ := x
      cases place' with
      | some place' => rfl
      | none =>
        -- the problem ends here, and its span is completed
        simp only [relocated, relocateBody, relocatePhase, Option.map_none, List.map_append,
          List.map_singleton, Problem.relocate, Token.relocate_span, Span.relocate_merge hf]
        rfl

/-- A step at other offsets. -/
theorem step_relocate (hf : Monotone f) (r : Reader K) (t : Token) :
    (r.relocate f).step (t.relocate f) = relocated f (Reader.relocate f) (r.step t) := by
  rw [step, relocate, stepPhase_relocate hf, step]
  cases stepPhase r.problems r.last r.phase t <;> rfl

/-- **The reader does the same at other offsets.** -/
theorem run_relocate (hf : Monotone f) (r : Reader K) (ts : List Token) :
    (r.relocate f).run (ts.map (Token.relocate f))
      = relocated f (Program.relocate f) (r.run ts) := by
  induction ts generalizing r with
  | nil => exact finish_relocate r
  | cons t ts ih =>
    simp only [List.map_cons, run, Token.relocate_kind, step_relocate hf, finish_relocate]
    split
    · rfl
    · cases r.step t with
      | ok s => exact ih s
      | error e => rfl

/-! ## Behind other problems -/

/-- The reader `r` behind the complete problems `ps`. -/
def behind (ps : List (Problem K)) (r : Reader K) : Reader K :=
  { r with problems := ps ++ r.problems }

/-- No step looks at the problems that are complete. -/
theorem step_behind (ps : List (Problem K)) (r : Reader K) (t : Token) :
    (r.behind ps).step t = (r.step t).map (behind ps) := by
  obtain ⟨problems, phase, last⟩ := r
  cases phase with
  | outside | name | brace =>
    simp only [behind, step, stepPhase]
    split_ifs <;> rfl
  | inside p place =>
    simp only [behind, step, stepPhase]
    rcases stepInside p last place t with e | ⟨q, _ | place'⟩
    · rfl
    · simp only [List.append_assoc, Except.map, behind]
    · rfl

/-- **Complete problems are kept**, and the rest of the text is read as if it stood alone. -/
theorem run_behind (ps : List (Problem K)) (r : Reader K) (ts : List Token) :
    (r.behind ps).run ts = (r.run ts).map fun p => ⟨ps ++ p.problems⟩ := by
  have hfinish : ∀ r : Reader K,
      (r.behind ps).finish = r.finish.map fun p => ⟨ps ++ p.problems⟩ := fun r => by
    obtain ⟨problems, phase, last⟩ := r
    cases phase <;> rfl
  induction ts generalizing r with
  | nil => exact hfinish r
  | cons t ts ih =>
    simp only [run, hfinish, step_behind]
    split
    · rfl
    · cases r.step t with
      | ok s => exact ih s
      | error e => rfl

end Reader

/-! ## Cutting -/

/-- The scanner does the same wherever the text stands. -/
theorem Scanner.tokens_add (s : Scanner) (n : Nat) :
    (Scanner.mk s.rest (s.pos + n)).tokens = s.tokens.map (Token.relocate (· + n)) := by
  fun_induction Scanner.tokens s with
  | case1 pos => rw [Scanner.tokens]; rfl
  | case2 c cs pos hc ih =>
    rw [Scanner.tokens, if_pos hc, Nat.add_right_comm]
    exact ih
  | case3 c cs pos hc ih =>
    have htoken : token (pos + n) c cs = (token pos c cs).relocate (· + n) := by
      simp only [token, Token.relocate, Span.relocate, Nat.add_right_comm]
    rw [Scanner.tokens, if_neg hc, List.map_cons, ← ih, htoken, after, htoken]
    rfl

end CornerPoint.Source
