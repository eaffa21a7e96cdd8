import CornerPoint.Source.Reader

/-!
# The grammar of the problem language

What a source text is, said without a reader: which lists of tokens are expressions,
declarations, problems and programs, and the tree that each derivation stands for. The rules
look at nothing but the kinds of tokens; texts and spans only enter the trees.

    program    = (N problem)* N end
    problem    = "problem" N name N "{" (N item)* N "}"
    item       = property | vars | objective | block
    property   = name ":"? (string | number | name)
    vars       = "vars" N name ("," N name)* C
    objective  = ("max" | "min") sum C
    block      = "constraints" N "{" (N row)* N "}"
    row        = (name ":")? sum C ("<=" | ">=" | "=") sum C
    sum        = product (T ("+" | "-") product)*
    product    = factor (T ("*" | "/") factor)*
    factor     = T ("-" factor | "+" factor | number name | number paren | number | name | paren)
    paren      = "(" sum T ")"

`N` stands for line ends and comments, `C` for comments, and `T` for `C` outside all
parentheses and `N` inside any. Every list of variables, objective and row is followed by a
line end, a closing brace or the end.
-/

namespace CornerPoint.Source

variable {K : Type}

/-! ## Single tokens -/

namespace Token

/-- The operator between the terms of a sum. -/
def Kind.additive? : Kind → Option Operator
  | .plus => some .add
  | .minus => some .sub
  | _ => none

/-- The operator between the factors of a term. -/
def Kind.multiplicative? : Kind → Option Operator
  | .star => some .mul
  | .slash => some .div
  | _ => none

/-- The relation between the sides of a row. -/
def Kind.relation? : Kind → Option Relation
  | .le => some .le
  | .ge => some .ge
  | .eq => some .eq
  | _ => none

/-- The direction that an objective begins with. -/
def Kind.sense? : Kind → Option Sense
  | .maximize => some .maximize
  | .minimize => some .minimize
  | _ => none

/-- The number that the text of a number token denotes. -/
def number [Scalar K] (t : Token) : K := (Scalar.ofText? t.text).getD 0

/-- What a property is set to by a token. -/
def value? [Scalar K] (t : Token) : Option (Value K) :=
  match t.kind with
  | .string => some (.string (unquote t.text))
  | .number => some (.number t.number)
  | .name => some (.word t.text)
  | _ => none

end Token

/-- Tokens without a meaning: comments and, if `lines` holds, line ends. -/
def Blank (lines : Bool) (ts : List Token) : Prop :=
  ∀ t ∈ ts, t.kind = .comment ∨ lines = true ∧ t.kind = .newline

/-- Where a declaration stands: from its first token that is neither a line end nor a comment
to its last token. -/
def extent (ts : List Token) : Span where
  start := ((ts.dropWhile (·.kind.isTrivia)).head?.map (·.span.start)).getD 0
  stop := (ts.getLast?.map (·.span.stop)).getD 0

/-! ## Expressions -/

/-- The nonterminals of expressions. -/
inductive Level where
  /-- Terms that are added and subtracted. -/
  | sum
  /-- Factors that are multiplied and divided. -/
  | product
  /-- An operand with the blanks in front of it. -/
  | factor
  /-- An operand, perhaps behind signs. -/
  | operand
  /-- A sum in parentheses. -/
  | paren

/-- `Derives level inside ts e`: the tokens `ts` derive from `level`, outside all parentheses
or inside some, and stand for the tree `e`. Sums and products grow at their right end, so
their trees lean to the left. -/
inductive Derives [Scalar K] : Level → Bool → List Token → Expr K → Prop
  | product {i ts e} : Derives .product i ts e → Derives .sum i ts e
  | additive {i ts l g t op us r} : Derives .sum i ts l → Blank i g →
      t.kind.additive? = some op → Derives .product i us r →
      Derives .sum i (ts ++ g ++ t :: us) (.binary l op r)
  | factor {i ts e} : Derives .factor i ts e → Derives .product i ts e
  | multiplicative {i ts l g t op us r} : Derives .product i ts l → Blank i g →
      t.kind.multiplicative? = some op → Derives .factor i us r →
      Derives .product i (ts ++ g ++ t :: us) (.binary l op r)
  | operand {i g ts e} : Blank i g → Derives .operand i ts e → Derives .factor i (g ++ ts) e
  | minus {i t ts e} : t.kind = .minus → Derives .factor i ts e →
      Derives .operand i (t :: ts) (.neg e)
  | plus {i t ts e} : t.kind = .plus → Derives .factor i ts e → Derives .operand i (t :: ts) e
  | number {i t} : t.kind = .number → Derives .operand i [t] (.number t.number)
  | name {i t} : t.kind = .name → Derives .operand i [t] (.var t.span t.text)
  | paren {i ts e} : Derives .paren i ts e → Derives .operand i ts e
  | numberName {i n t} : n.kind = .number → t.kind = .name →
      Derives .operand i [n, t] (.binary (.number n.number) .mul (.var t.span t.text))
  | numberParen {i n ts e} : n.kind = .number → Derives .paren i ts e →
      Derives .operand i (n :: ts) (.binary (.number n.number) .mul e)
  | enclosed {i o ts e g c} : o.kind = .openParen → Derives .sum true ts e → Blank true g →
      c.kind = .closeParen → Derives .paren i (o :: ts ++ g ++ [c]) (.paren e)

/-! ## Lists with blanks between their members -/

/-- The first token ends the line in front of it. -/
def EndsLine (ts : List Token) : Prop :=
  ∃ t ∈ ts.head?, t.kind = .newline ∨ t.kind = .closeBrace ∨ t.kind = .endOfInput

/-- `Series closer item line ts c xs`: the tokens `ts` are members, each behind blanks, and
blanks, in front of the token `c`, which is of the kind `closer`. A member for which `line`
holds takes up a line. -/
inductive Series {α : Type} (closer : Token.Kind) (item : List Token → α → Prop)
    (line : α → Bool) : List Token → Token → List α → Prop
  | nil {g c} : Blank true g → c.kind = closer → Series closer item line g c []
  | cons {g us x vs c xs} : Blank true g → item us x →
      (line x = true → EndsLine (vs ++ [c])) → Series closer item line vs c xs →
      Series closer item line (g ++ us ++ vs) c (x :: xs)

/-! ## Declarations -/

/-- A declaration of a problem. -/
inductive Item (K : Type) where
  | property (x : Property K)
  | vars (x : VariableList)
  | objective (x : ObjectiveLine K)
  | block (rows : List (ConstraintLine K))

namespace Item

/-- Variables and objectives take up a line. -/
def takesLine : Item K → Bool
  | vars _ => true
  | objective _ => true
  | _ => false

/-- The property, if it is one. -/
def property? : Item K → Option (Property K)
  | property x => some x
  | _ => none

/-- The list of variables, if it is one. -/
def vars? : Item K → Option VariableList
  | vars x => some x
  | _ => none

/-- The objective, if it is one. -/
def objective? : Item K → Option (ObjectiveLine K)
  | objective x => some x
  | _ => none

/-- The rows, if it is a block. -/
def rows : Item K → List (ConstraintLine K)
  | block xs => xs
  | _ => []

end Item

/-- The problem that declarations make up. -/
def Problem.ofItems (span : Span) (name : String) (items : List (Item K)) : Problem K where
  span := span
  name := name
  properties := items.filterMap Item.property?
  vars := (items.filterMap Item.vars?).getLast?
  objectives := items.filterMap Item.objective?
  constraints := items.flatMap Item.rows

/-- A name and what it is set to. -/
inductive IsProperty [Scalar K] : List Token → Property K → Prop
  | plain {n t v} : n.kind = .name → t.value? = some v →
      IsProperty [n, t] ⟨extent [n, t], n.text, v⟩
  | colon {n c t v} : n.kind = .name → c.kind = .colon → t.value? = some v →
      IsProperty [n, c, t] ⟨extent [n, c, t], n.text, v⟩

/-- Names with commas between them. -/
inductive IsNames : List Token → List String → Prop
  | first {g n} : Blank true g → n.kind = .name → IsNames (g ++ [n]) [n.text]
  | next {us xs c g n} : IsNames us xs → c.kind = .comma → Blank true g → n.kind = .name →
      IsNames (us ++ c :: g ++ [n]) (xs ++ [n.text])

/-- A list of variables. -/
inductive IsVariables : List Token → VariableList → Prop
  | intro {v us xs g} : v.kind = .vars → IsNames us xs → Blank false g →
      IsVariables (v :: us ++ g) ⟨extent (v :: us ++ g), xs⟩

/-- An objective. -/
inductive IsObjective [Scalar K] : List Token → ObjectiveLine K → Prop
  | intro {t sense us e g} : t.kind.sense? = some sense → Derives .sum false us e →
      Blank false g → IsObjective (t :: us ++ g) ⟨extent (t :: us ++ g), sense, e⟩

/-- The label of a row, or none. -/
inductive IsLabel : List Token → Option String → Prop
  | none : IsLabel [] none
  | some {n c} : n.kind = .name → c.kind = .colon → IsLabel [n, c] (some n.text)

/-- A row of a block. -/
inductive IsRow [Scalar K] : List Token → ConstraintLine K → Prop
  | intro {ls label us lhs g t relation vs rhs h} : IsLabel ls label →
      Derives .sum false us lhs → Blank false g → t.kind.relation? = some relation →
      Derives .sum false vs rhs → Blank false h →
      IsRow (ls ++ us ++ g ++ t :: vs ++ h)
        ⟨extent (ls ++ us ++ g ++ t :: vs ++ h), label, lhs, relation, rhs⟩

/-- The rows of a block, in front of its closing brace. -/
abbrev IsRows [Scalar K] : List Token → Token → List (ConstraintLine K) → Prop :=
  Series .closeBrace IsRow fun _ => true

/-- A declaration. -/
inductive IsItem [Scalar K] : List Token → Item K → Prop
  | property {us x} : IsProperty us x → IsItem us (.property x)
  | vars {us x} : IsVariables us x → IsItem us (.vars x)
  | objective {us x} : IsObjective us x → IsItem us (.objective x)
  | block {t g o us c rows} : t.kind = .constraints → Blank true g → o.kind = .openBrace →
      IsRows us c rows → IsItem (t :: g ++ o :: us ++ [c]) (.block rows)

/-! ## Problems and programs -/

/-- The declarations of a problem, in front of its closing brace. -/
abbrev IsItems [Scalar K] : List Token → Token → List (Item K) → Prop :=
  Series .closeBrace IsItem Item.takesLine

/-- A problem. -/
inductive IsProblem [Scalar K] : List Token → Problem K → Prop
  | intro {t g n h o us c items} : t.kind = .problem → Blank true g → n.kind = .name →
      Blank true h → o.kind = .openBrace → IsItems us c items →
      IsProblem (t :: g ++ n :: h ++ o :: us ++ [c])
        (.ofItems (t.span.merge c.span) n.text items)

/-- The problems of a program, in front of the end. -/
abbrev IsProblems [Scalar K] : List Token → Token → List (Problem K) → Prop :=
  Series .endOfInput IsProblem fun _ => false

/-- A program. -/
inductive IsProgram [Scalar K] : List Token → Program K → Prop
  | intro {us c ps} : IsProblems us c ps → IsProgram (us ++ [c]) ⟨ps⟩

end CornerPoint.Source
