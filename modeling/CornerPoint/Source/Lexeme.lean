import CornerPoint.Source.Token
import CornerPoint.Text.Letter

/-!
# Where a token ends

Given the first character of a token and the characters after it, `Lexeme.of` says what
kind of token it is and how many characters it takes. Only lengths are computed here; the
text of a token is always cut out of the source, so that nothing can be lost or changed.

Every length below is that of the longest lexeme of its kind:

* a name is a letter or `_` and then letters, numerals and `_`;
* a number is digits, with a point and digits or an exponent only if digits follow, or a
  point and digits;
* a string runs to its closing quote, or to the end of the line if there is none;
* a comment runs from `//` to the end of the line, or from `/*` to the first `*/`, or to the
  end of the source if there is none.
-/

namespace CornerPoint.Source

/-- The kind of a token and the number of its characters behind the first one. -/
structure Lexeme where
  kind : Token.Kind
  more : Nat

namespace Lexeme

/-! ## Lengths -/

/-- The number of characters at the front that satisfy `p`. -/
def run (p : Char → Bool) (cs : List Char) : Nat := (cs.takeWhile p).length

/-- Characters of a name behind its first one. -/
def isNamePart (c : Char) : Bool := Text.isAlphanumeric c || c == '_'

/-- The length of a fraction: a point and at least one digit. -/
def fraction : List Char → Nat
  | '.' :: cs => if run Char.isDigit cs = 0 then 0 else 1 + run Char.isDigit cs
  | _ => 0

/-- The length of an optional sign. -/
def sign : List Char → Nat
  | '+' :: _ => 1
  | '-' :: _ => 1
  | _ => 0

/-- The length of an exponent: `e` or `E`, an optional sign and at least one digit. -/
def exponent : List Char → Nat
  | [] => 0
  | e :: cs =>
    let digits := run Char.isDigit (cs.drop (sign cs))
    if (e == 'e' || e == 'E') && digits != 0 then 1 + sign cs + digits else 0

/-- The length of an unsigned number. -/
def number (cs : List Char) : Nat :=
  let whole := run Char.isDigit cs
  let places := fraction (cs.drop whole)
  whole + places + exponent (cs.drop (whole + places))

/-- The length of a string behind its opening quote, its closing quote included. -/
def string : List Char → Nat
  | [] => 0
  | c :: cs => if c == '"' then 1 else if c == '\n' then 0 else 1 + string cs

/-- The length of a block comment behind its opening, its closing included. -/
def block : List Char → Nat
  | [] => 0
  | '*' :: '/' :: _ => 2
  | _ :: cs => 1 + block cs

/-! ## Kinds -/

/-- The kind of a name: some names are keywords. -/
def nameKind : List Char → Token.Kind
  | ['p', 'r', 'o', 'b', 'l', 'e', 'm'] => .problem
  | ['m', 'a', 'x'] => .maximize
  | ['m', 'a', 'x', 'i', 'm', 'i', 'z', 'e'] => .maximize
  | ['m', 'i', 'n'] => .minimize
  | ['m', 'i', 'n', 'i', 'm', 'i', 'z', 'e'] => .minimize
  | ['v', 'a', 'r', 's'] => .vars
  | ['c', 'o', 'n', 's', 't', 'r', 'a', 'i', 'n', 't', 's'] => .constraints
  | ['s', 'u', 'b', 'j', 'e', 'c', 't', '_', 't', 'o'] => .constraints
  | _ => .name

/-- A relation that may be written with an `=` behind its first character. -/
def relation (alone withEq : Token.Kind) : List Char → Lexeme
  | '=' :: _ => ⟨withEq, 1⟩
  | _ => ⟨alone, 0⟩

/-- A token that begins with a slash. -/
def slash : List Char → Lexeme
  | '/' :: cs => ⟨.comment, 1 + run (· != '\n') cs⟩
  | '*' :: cs => ⟨.comment, 1 + block cs⟩
  | _ => ⟨.slash, 0⟩

/-- A name, a number, or a single character that fits nowhere. -/
def word (c : Char) (cs : List Char) : Lexeme :=
  if c.isDigit || (c == '.' && fraction (c :: cs) != 0) then ⟨.number, number (c :: cs) - 1⟩
  else if Text.isAlphabetic c || c == '_' then
    let more := run isNamePart cs
    ⟨nameKind (c :: cs.take more), more⟩
  else ⟨.unknown, 0⟩

/-- The token that begins with `c` when the characters `cs` follow. -/
def of (c : Char) (cs : List Char) : Lexeme :=
  match c with
  | '\n' => ⟨.newline, 0⟩
  | '/' => slash cs
  | '"' => ⟨.string, string cs⟩
  | '+' => ⟨.plus, 0⟩
  | '-' => ⟨.minus, 0⟩
  | '*' => ⟨.star, 0⟩
  | '<' => relation .unknown .le cs
  | '>' => relation .unknown .ge cs
  | '=' => relation .eq .eq cs
  | '≤' => ⟨.le, 0⟩
  | '≥' => ⟨.ge, 0⟩
  | ':' => ⟨.colon, 0⟩
  | ',' => ⟨.comma, 0⟩
  | '{' => ⟨.openBrace, 0⟩
  | '}' => ⟨.closeBrace, 0⟩
  | '(' => ⟨.openParen, 0⟩
  | ')' => ⟨.closeParen, 0⟩
  | _ => word c cs

end Lexeme

end CornerPoint.Source
