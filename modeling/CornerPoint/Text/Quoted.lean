import CornerPoint.Text.Printable

/-!
# Quoted texts

Two ways of putting a text between double quotes. In trees every character that does not
show is escaped by its code point; in JSON documents only what the format demands is.
-/

namespace CornerPoint.Text

/-- The digits of `n` in lower-case hexadecimal. -/
def hex (n : Nat) : List Char := Nat.toDigits 16 n

/-- A text in quotes, each of its characters written by `escape`. -/
def quoteWith (escape : Char → List Char) (s : String) : String :=
  String.ofList ('"' :: s.toList.flatMap escape ++ ['"'])

/-- A character inside the quotes of a tree. -/
def escapeHidden (c : Char) : List Char :=
  match c with
  | '"' => ['\\', '"']
  | '\\' => ['\\', '\\']
  | '\n' => ['\\', 'n']
  | '\r' => ['\\', 'r']
  | '\t' => ['\\', 't']
  | '\x00' => ['\\', '0']
  | _ => if isPrintable c then [c] else ['\\', 'u', '{'] ++ hex c.toNat ++ ['}']

/-- A text as trees quote it. -/
def quote (s : String) : String := quoteWith escapeHidden s

/-- A character inside the quotes of a JSON document. Control characters without a short
escape are written as four hexadecimal digits. -/
def escapeJson (c : Char) : List Char :=
  match c with
  | '"' => ['\\', '"']
  | '\\' => ['\\', '\\']
  | '\n' => ['\\', 'n']
  | '\r' => ['\\', 'r']
  | '\t' => ['\\', 't']
  | '\x08' => ['\\', 'b']
  | '\x0c' => ['\\', 'f']
  | _ =>
    if c.toNat < 0x20 then
      ['\\', 'u'] ++ List.replicate (4 - (hex c.toNat).length) '0' ++ hex c.toNat
    else [c]

/-- A text as JSON documents quote it. -/
def quoteJson (s : String) : String := quoteWith escapeJson s

end CornerPoint.Text
