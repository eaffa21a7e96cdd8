import CornerPoint.Source.ExprReader
import CornerPoint.Source.Program
import CornerPoint.Source.Scanner

/-!
# Reading a source text, one token at a time

A `Reader` is what has been read of a source text. Like the reader of expressions it takes
one token after another and never looks ahead, so a text is rejected at the first token that
cannot be right, whatever follows it.

A problem is a name and declarations in braces. Properties are a name, perhaps a colon, and a
value. Variables, objectives and constraints take up a line each, constraints inside a block.
Blank lines and comments may stand between declarations, and comments at the end of a line.
-/

namespace CornerPoint.Source

variable {K : Type}

/-- What an expression is read for. -/
inductive Purpose (K : Type) where
  /-- The objective that starts at an offset. -/
  | objective (start : Nat) (sense : Sense)
  /-- The left-hand side of the constraint that starts at an offset. -/
  | left (start : Nat) (label : Option String)
  /-- The right-hand side of that constraint. -/
  | right (start : Nat) (label : Option String) (lhs : Expr K) (relation : Relation)

/-- Where in the body of a problem the reader is. -/
inductive Place (K : Type) where
  /-- Between declarations. -/
  | body
  /-- Behind the name of a property, and perhaps behind its colon. -/
  | property (start : Nat) (name : String) (colon : Bool)
  /-- Where the name of a variable must follow. -/
  | varName (start : Nat) (names : List String)
  /-- Behind the name of a variable; no comma may follow behind a comment. -/
  | afterVariable (start : Nat) (names : List String) (comma : Bool)
  /-- Behind the word that opens a block of constraints, in front of its brace. -/
  | blockBrace
  /-- Between constraints. -/
  | block
  /-- Behind a name that starts a constraint and is its label if a colon follows. -/
  | labelOrOperand (name : Token)
  /-- In an expression. -/
  | expr (purpose : Purpose K) (reader : ExprReader K)

/-- Where in the text the reader is. -/
inductive Phase (K : Type) where
  /-- Between problems. -/
  | outside
  /-- Behind the word that starts a problem, in front of its name. -/
  | name (start : Span)
  /-- Behind the name of a problem, in front of its brace. -/
  | brace (start : Span) (name : String)
  /-- In a problem, whose declarations so far are given; its span is still that of its first
  token. -/
  | inside (problem : Problem K) (place : Place K)

/-- What has been read: the complete problems, the current one, and the offset where the last
token ended. -/
structure Reader (K : Type) where
  problems : List (Problem K)
  phase : Phase K
  last : Nat

/-- The token `t` is not what could have stood there. -/
def Token.refuse {α : Type} (t : Token) (expected : Expectation) : Except SyntaxError α :=
  .error (.unexpected expected t.kind t.span)

/-- Line ends and comments. -/
def Token.Kind.isTrivia (k : Token.Kind) : Bool := k = .newline || k = .comment

/-- A text without the quotes at its ends. -/
def unquote (s : String) : String :=
  String.ofList
    (((s.toList.dropWhile (· == '"')).reverse.dropWhile (· == '"')).reverse)

/-! ## Inside a problem -/

namespace Problem

/-- A problem that has no declarations yet. -/
def empty (start : Span) (name : String) : Problem K := ⟨start, name, [], none, [], []⟩

/-- Adds a property behind the others. -/
def addProperty (p : Problem K) (x : Property K) : Problem K :=
  { p with properties := p.properties ++ [x] }

/-- Adds an objective behind the others. -/
def addObjective (p : Problem K) (x : ObjectiveLine K) : Problem K :=
  { p with objectives := p.objectives ++ [x] }

/-- Adds a constraint behind the others. -/
def addConstraint (p : Problem K) (x : ConstraintLine K) : Problem K :=
  { p with constraints := p.constraints ++ [x] }

/-- A later list of variables takes the place of an earlier one. -/
def setVariables (p : Problem K) (x : VariableList) : Problem K :=
  { p with vars := some x }

end Problem

/-- What a token in a problem leads to: the problem with a place in it, or its end. -/
abbrev BodyStep (K : Type) := Except SyntaxError (Problem K × Option (Place K))

namespace Reader

/-- A declaration has been completed by the token `t`, which must end its line: a line end, or
the brace that closes what the declaration stands in. Behind a line end the reader is at
`inside`, behind a brace at `outside`. -/
def endLine (t : Token) (p : Problem K) (inside : Place K) (outside : Option (Place K)) :
    BodyStep K :=
  match t.kind with
  | .newline => .ok (p, some inside)
  | .closeBrace => .ok (p, outside)
  | _ => t.refuse .lineEnd

/-- The token `t` between declarations. -/
def stepBody (p : Problem K) (t : Token) : BodyStep K :=
  match t.kind with
  | .newline => .ok (p, some .body)
  | .comment => .ok (p, some .body)
  | .closeBrace => .ok (p, none)
  | .maximize => .ok (p, some (.expr (.objective t.span.start .maximize) .start))
  | .minimize => .ok (p, some (.expr (.objective t.span.start .minimize) .start))
  | .vars => .ok (p, some (.varName t.span.start []))
  | .constraints => .ok (p, some .blockBrace)
  | .name => .ok (p, some (.property t.span.start t.text false))
  | _ => t.refuse .declaration

/-- The token `t` behind the name of a property. -/
def stepProperty [Scalar K] (p : Problem K) (start : Nat) (name : String) (colon : Bool)
    (t : Token) : BodyStep K :=
  let set (value : Value K) : BodyStep K :=
    .ok (p.addProperty ⟨⟨start, t.span.stop⟩, name, value⟩, some .body)
  match t.kind with
  | .string => set (.string (unquote t.text))
  | .number =>
    match Scalar.ofText? t.text with
    | some value => set (.number value)
    | none => .error (.badNumber t.text)
  | .name => set (.word t.text)
  | .colon => if colon then t.refuse .value else .ok (p, some (.property start name true))
  | _ => t.refuse .value

/-- The token `t` behind the name of a variable. -/
def stepAfterVariable (p : Problem K) (last start : Nat) (names : List String) (comma : Bool)
    (t : Token) : BodyStep K :=
  match t.kind with
  | .comma =>
    if comma then .ok (p, some (.varName start names)) else t.refuse .lineEnd
  | .comment => .ok (p, some (.afterVariable start names false))
  | _ => endLine t (p.setVariables ⟨⟨start, last⟩, names⟩) .body none

/-- The token `t` behind the expression `e`. -/
def stepAfterExpr (p : Problem K) (last : Nat) (purpose : Purpose K) (e : Expr K) (t : Token) :
    BodyStep K :=
  match purpose with
  | .objective start sense => endLine t (p.addObjective ⟨⟨start, last⟩, sense, e⟩) .body none
  | .left start label =>
    let go (relation : Relation) : BodyStep K :=
      .ok (p, some (.expr (.right start label e relation) .start))
    match t.kind with
    | .le => go .le
    | .ge => go .ge
    | .eq => go .eq
    | _ => t.refuse .relation
  | .right start label lhs relation =>
    endLine t (p.addConstraint ⟨⟨start, last⟩, label, lhs, relation, e⟩) .block (some .body)

/-- The token `t` in an expression, or right behind it. -/
def stepExpr [Scalar K] (p : Problem K) (last : Nat) (purpose : Purpose K) (reader : ExprReader K)
    (t : Token) : BodyStep K :=
  match reader.step t with
  | .more reader => .ok (p, some (.expr purpose reader))
  | .ended e => stepAfterExpr p last purpose e t
  | .wrong expected => t.refuse expected
  | .badNumber => .error (.badNumber t.text)

/-- The token `t` inside a problem. -/
def stepInside [Scalar K] (p : Problem K) (last : Nat) (place : Place K) (t : Token) : BodyStep K :=
  match place with
  | .body => stepBody p t
  | .property start name colon => stepProperty p start name colon t
  | .varName start names =>
    if t.kind.isTrivia then .ok (p, some (.varName start names))
    else if t.kind = .name then .ok (p, some (.afterVariable start (names ++ [t.text]) true))
    else t.refuse (.kind .name)
  | .afterVariable start names comma => stepAfterVariable p last start names comma t
  | .blockBrace =>
    if t.kind.isTrivia then .ok (p, some .blockBrace)
    else if t.kind = .openBrace then .ok (p, some .block)
    else t.refuse (.kind .openBrace)
  | .block =>
    match t.kind with
    | .newline => .ok (p, some .block)
    | .comment => .ok (p, some .block)
    | .closeBrace => .ok (p, some .body)
    | .name => .ok (p, some (.labelOrOperand t))
    | _ => stepExpr p last (.left t.span.start none) .start t
  | .labelOrOperand name =>
    if t.kind = .colon then .ok (p, some (.expr (.left name.span.start (some name.text)) .start))
    else
      stepExpr p last (.left name.span.start none)
        (ExprReader.afterOperand .start (.var name.span name.text) []) t
  | .expr purpose reader => stepExpr p last purpose reader t

/-! ## Between problems -/

/-- The token `t` after the complete problems `ps`. -/
def stepPhase [Scalar K] (ps : List (Problem K)) (last : Nat) (phase : Phase K) (t : Token) :
    Except SyntaxError (List (Problem K) × Phase K) :=
  match phase with
  | .outside =>
    if t.kind.isTrivia then .ok (ps, .outside)
    else if t.kind = .problem then .ok (ps, .name t.span)
    else t.refuse .problem
  | .name start =>
    if t.kind.isTrivia then .ok (ps, .name start)
    else if t.kind = .name then .ok (ps, .brace start t.text)
    else t.refuse (.kind .name)
  | .brace start name =>
    if t.kind.isTrivia then .ok (ps, .brace start name)
    else if t.kind = .openBrace then .ok (ps, .inside (.empty start name) .body)
    else t.refuse (.kind .openBrace)
  | .inside p place =>
    match stepInside p last place t with
    | .ok (p, some place) => .ok (ps, .inside p place)
    | .ok (p, none) => .ok (ps ++ [{ p with span := p.span.merge t.span }], .outside)
    | .error e => .error e

/-- Nothing has been read. -/
def start : Reader K := ⟨[], .outside, 0⟩

/-- The token `t` after what has been read. -/
def step [Scalar K] (r : Reader K) (t : Token) : Except SyntaxError (Reader K) :=
  match stepPhase r.problems r.last r.phase t with
  | .ok (problems, phase) => .ok ⟨problems, phase, t.span.stop⟩
  | .error e => .error e

/-- The text ends here, which it may only do between problems. -/
def finish (r : Reader K) : Except SyntaxError (Program K) :=
  match r.phase with
  | .outside => .ok ⟨r.problems⟩
  | _ => .error .endOfInput

/-- Reads tokens up to the end token or the last one. -/
def run [Scalar K] (r : Reader K) : List Token → Except SyntaxError (Program K)
  | [] => r.finish
  | t :: ts =>
    if t.kind = .endOfInput then r.finish
    else
      match r.step t with
      | .ok r => run r ts
      | .error e => .error e

end Reader

namespace Program

/-- The program that tokens spell out. -/
def ofTokens [Scalar K] (ts : List Token) : Except SyntaxError (Program K) := Reader.start.run ts

/-- The program that a source text spells out. -/
def ofString [Scalar K] (source : String) : Except SyntaxError (Program K) :=
  ofTokens (tokenize source)

end Program

end CornerPoint.Source
