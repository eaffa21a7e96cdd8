import CornerPoint.Proofs.Descent.Cursor

/-!
# Reading by recursive descent

The problem language is read a second time here, from a whole list of tokens and by one function
for each part of the grammar. The functions call each other as the parts contain each other, look
ahead as far as they like, and remember the open parentheses as a number.

Nothing in the definitions says that a call returns: those of expressions, like the loops, are the
least solutions of their equations.
-/

namespace CornerPoint.Source

variable {K : Type}

namespace Problem

/-- The problem with more constraints behind the others. -/
def addRows (p : Problem K) (rows : List (ConstraintLine K)) : Problem K :=
  { p with constraints := p.constraints ++ rows }

theorem addRows_nil (p : Problem K) : p.addRows [] = p := by
  rw [addRows, List.append_nil]

/-- Rows can be added one at a time. -/
theorem addRows_concat (p : Problem K) (rows : List (ConstraintLine K)) (x : ConstraintLine K) :
    p.addRows (rows ++ [x]) = (p.addRows rows).addConstraint x := by
  rw [addRows, addRows, addConstraint, List.append_assoc]

/-- How many objectives and constraints are kept. Each of them takes up a line. -/
def lineCount (p : Problem K) : Nat := p.objectives.length + p.constraints.length

end Problem

/-- How many objectives and constraints are kept in all problems. -/
def Program.lineCount (p : Program K) : Nat := (p.problems.map Problem.lineCount).sum

namespace Cursor

variable [Scalar K]

/-! ## Expressions -/

/-- Behind the sum in parentheses. The parenthesis is no longer counted as open, whatever has become
of the sum. -/
def close (r : Except SyntaxError (Expr K)) (c : Cursor) : Option (Returned (Expr K)) := do
  let c ← c.skipBlanks
  let c ← c.closed?
  match r with
  | .ok e => andThen (c.expect .closeParen) fun _ c => return (.ok (.paren e), c)
  | .error e => return (.error e, c)

mutual

/-- Terms that are added and subtracted. -/
def sum (c : Cursor) : Option (Returned (Expr K)) := do
  match ← c |>.product with
  | (.ok left, c) => c |>.sumFrom left
  | (.error e, c) => return (.error e, c)
partial_fixpoint

/-- More terms behind the sum `left`. -/
def sumFrom (left : Expr K) (c : Cursor) : Option (Returned (Expr K)) := do
  let c ← c.skipBlanks
  match c.kind.additive? with
  | none => return (.ok left, c)
  | some op =>
    match ← c.advance |>.product with
    | (.ok right, c) => c |>.sumFrom (.binary left op right)
    | (.error e, c) => return (.error e, c)
partial_fixpoint

/-- Factors that are multiplied and divided. -/
def product (c : Cursor) : Option (Returned (Expr K)) := do
  match ← c |>.factor with
  | (.ok left, c) => c |>.productFrom left
  | (.error e, c) => return (.error e, c)
partial_fixpoint

/-- More factors behind the product `left`. -/
def productFrom (left : Expr K) (c : Cursor) : Option (Returned (Expr K)) := do
  let c ← c.skipBlanks
  match c.kind.multiplicative? with
  | none => return (.ok left, c)
  | some op =>
    match ← c.advance |>.factor with
    | (.ok right, c) => c |>.productFrom (.binary left op right)
    | (.error e, c) => return (.error e, c)
partial_fixpoint

/-- An operand, perhaps behind signs. -/
def factor (c : Cursor) : Option (Returned (Expr K)) := do
  let c ← c.skipBlanks
  match c.kind with
  | .minus =>
    match ← c.advance |>.factor with
    | (.ok e, c) => return (.ok (.neg e), c)
    | (.error e, c) => return (.error e, c)
  | .plus => c.advance |>.factor
  | _ => c |>.operand
partial_fixpoint

/-- A number, a name or a parenthesis, or a number and what it multiplies. -/
def operand (c : Cursor) : Option (Returned (Expr K)) := do
  match ← c |>.primary with
  | (.ok (.number n), c) =>
    if c.kind = .name ∨ c.kind = .openParen then
      match ← c |>.primary with
      | (.ok right, c) => return (.ok (.binary (.number n) .mul right), c)
      | (.error e, c) => return (.error e, c)
    else return (.ok (.number n), c)
  | (r, c) => return (r, c)
partial_fixpoint

/-- A number, a name or a sum in parentheses. -/
def primary (c : Cursor) : Option (Returned (Expr K)) := do
  let c ← c.skipBlanks
  match c.current? with
  | none => return (.error (c.unexpected .operand), c)
  | some t =>
    match t.kind with
    | .number =>
      match Scalar.ofText? t.text with
      | some n => return (.ok (.number n), c.advance)
      | none => return (.error (.badNumber t.text), c.advance)
    | .name => return (.ok (.var t.span t.text), c.advance)
    | .openParen =>
      let (r, c) ← c.advance.opened |>.sum
      c.close r
    | _ => return (.error (c.unexpected .operand), c)
partial_fixpoint

end

/-! ## Declarations -/

/-- What a property is set to. -/
def value (c : Cursor) : Returned (Value K) :=
  match c.current? with
  | none => (.error (c.unexpected .value), c)
  | some t =>
    match t.kind with
    | .string => (.ok (.string (unquote t.text)), c.advance)
    | .number =>
      match Scalar.ofText? t.text with
      | some n => (.ok (.number n), c.advance)
      | none => (.error (.badNumber t.text), c.advance)
    | .name => (.ok (.word t.text), c.advance)
    | _ => (.error (c.unexpected .value), c)

/-- Behind a colon, if there is one. -/
def pastColon (c : Cursor) : Cursor := if c.kind = .colon then c.advance else c

/-- A property. -/
def property (c : Cursor) : Option (Returned (Property K)) :=
  andThen (c.expect .name) fun name c =>
    andThen (some c.pastColon.value) fun v c =>
      return (.ok ⟨⟨name.span.start, c.lastStop name.span.stop⟩, name.text, v⟩, c)

/-- One more name, behind a comma. -/
def nextName (names : List String) (c : Cursor) : Option (Returned (List String)) :=
  andThen (c.advance.expect .name) fun name c => return (.ok (names ++ [name.text]), c)

/-- A list of variables. -/
def varList (c : Cursor) : Option (Returned VariableList) :=
  andThen (c.expect .vars) fun word c =>
    andThen (c.expect .name) fun name c =>
      andThen (c.loop some (· = .comma) nextName [name.text]) fun names c =>
        andThen c.lineEnd fun _ c =>
          return (.ok ⟨⟨word.span.start, c.lastStop word.span.stop⟩, names⟩, c)

/-- Where a declaration begins. -/
def firstSpan (c : Cursor) : Span := (c.current?.map (·.span)).getD ⟨0, 0⟩

/-- An objective. `nextItem` only looks for it where its first word is. -/
def objective (c : Cursor) : Option (Returned (ObjectiveLine K)) := do
  let c ← c.skipLines
  let first := c.firstSpan
  match c.kind.sense? with
  | none => return (.error (c.unexpected .objective), c)
  | some sense =>
    andThen c.advance.sum fun e c =>
      andThen c.lineEnd fun _ c => return (.ok ⟨⟨first.start, c.lastStop first.stop⟩, sense, e⟩, c)

/-- The label of a constraint: a name in front of a colon, if there is one. -/
def label (c : Cursor) : Option String × Cursor :=
  match c.current? with
  | none => (none, c)
  | some t =>
    if t.kind = .name ∧ c.kindAt 1 = .colon then (some t.text, c.advance.advance) else (none, c)

/-- A constraint behind its label. -/
def sides (first : Span) (label : Option String) (c : Cursor) :
    Option (Returned (ConstraintLine K)) :=
  andThen c.sum fun lhs c => do
    let c ← c.skipBlanks
    match c.kind.relation? with
    | none => return (.error (c.unexpected .relation), c)
    | some relation =>
      andThen c.advance.sum fun rhs c =>
        andThen c.lineEnd fun _ c =>
          return (.ok ⟨⟨first.start, c.lastStop first.stop⟩, label, lhs, relation, rhs⟩, c)

/-- A constraint. -/
def row (c : Cursor) : Option (Returned (ConstraintLine K)) := do
  let c ← c.skipLines
  c.label.2.sides c.firstSpan c.label.1

/-- One more constraint. -/
def nextRow (rows : List (ConstraintLine K)) (c : Cursor) :
    Option (Returned (List (ConstraintLine K))) :=
  andThen c.row fun x c => return (.ok (rows ++ [x]), c)

/-- A block of constraints. -/
def block (c : Cursor) : Option (Returned (List (ConstraintLine K))) :=
  andThen (c.expect .constraints) fun _ c =>
    andThen (c.expect .openBrace) fun _ c =>
      andThen (c.loop skipLines (· ≠ .closeBrace) nextRow []) fun rows c =>
        andThen (c.expect .closeBrace) fun _ c => return (.ok rows, c)

/-! ## Problems -/

/-- One more declaration. -/
def nextItem (p : Problem K) (c : Cursor) : Option (Returned (Problem K)) :=
  match c.kind with
  | .maximize => andThen c.objective fun x c => return (.ok (p.addObjective x), c)
  | .minimize => andThen c.objective fun x c => return (.ok (p.addObjective x), c)
  | .vars => andThen c.varList fun x c => return (.ok (p.setVariables x), c)
  | .constraints => andThen c.block fun rows c => return (.ok (p.addRows rows), c)
  | .name => andThen c.property fun x c => return (.ok (p.addProperty x), c)
  | _ => return (.error (c.unexpected .declaration), c)

/-- A problem. -/
def problem (c : Cursor) : Option (Returned (Problem K)) :=
  andThen (c.expect .problem) fun word c =>
    andThen (c.expect .name) fun name c =>
      andThen (c.expect .openBrace) fun _ c =>
        andThen (c.loop skipLines (· ≠ .closeBrace) nextItem (.empty word.span name.text))
          fun p c => andThen (c.expect .closeBrace) fun brace c =>
            return (.ok { p with span := p.span.merge brace.span }, c)

/-- One more problem. -/
def nextProblem (ps : List (Problem K)) (c : Cursor) : Option (Returned (List (Problem K))) :=
  match c.kind with
  | .problem => andThen c.problem fun p c => return (.ok (ps ++ [p]), c)
  | _ => return (.error (c.unexpected .problem), c)

/-- A whole text. -/
def program (c : Cursor) : Option (Returned (Program K)) :=
  andThen (c.loop skipLines (· ≠ .endOfInput) nextProblem []) fun ps c => return (.ok ⟨ps⟩, c)

end Cursor

end CornerPoint.Source
