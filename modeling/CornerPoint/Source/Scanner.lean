import CornerPoint.Source.Lexeme

/-!
# Cutting a source text into tokens

`tokenize` cuts a whole text; a `Scanner` hands out one token after another and, at the
end, the end token again and again. Spaces, tabs and carriage returns stand between tokens
and belong to none; all other characters belong to exactly one. Offsets count the bytes of
the UTF-8 encoding.
-/

namespace CornerPoint.Source

/-- The characters that may stand between tokens. -/
def isBlank (c : Char) : Bool := c == ' ' || c == '\t' || c == '\r'

/-- The number of bytes that characters take in UTF-8. -/
def byteSize : List Char → Nat
  | [] => 0
  | c :: cs => c.utf8Size + byteSize cs

/-- The characters that are still to be cut, and the offset of the first of them. -/
structure Scanner where
  rest : List Char
  pos : Nat

namespace Scanner

/-- A scanner at the start of a text. -/
def ofString (source : String) : Scanner := ⟨source.toList, 0⟩

/-- The token that starts with `c` at `pos`, when the characters `cs` follow. -/
def token (pos : Nat) (c : Char) (cs : List Char) : Token :=
  let lexeme := Lexeme.of c cs
  let text := c :: cs.take lexeme.more
  ⟨lexeme.kind, ⟨pos, pos + byteSize text⟩, String.ofList text⟩

/-- The scanner behind that token. -/
def after (pos : Nat) (c : Char) (cs : List Char) : Scanner :=
  ⟨cs.drop (Lexeme.of c cs).more, (token pos c cs).span.stop⟩

/-- The next token and the scanner behind it. -/
def next : Scanner → Token × Scanner
  | ⟨[], pos⟩ => (Token.endAt pos, ⟨[], pos⟩)
  | ⟨c :: cs, pos⟩ =>
    if isBlank c then next ⟨cs, pos + c.utf8Size⟩ else (token pos c cs, after pos c cs)
termination_by s => s.rest.length

/-- All tokens up to and including the end. -/
def tokens : Scanner → List Token
  | ⟨[], pos⟩ => [Token.endAt pos]
  | ⟨c :: cs, pos⟩ =>
    if isBlank c then tokens ⟨cs, pos + c.utf8Size⟩ else token pos c cs :: tokens (after pos c cs)
termination_by s => s.rest.length
decreasing_by
  · simp
  · simp only [after, List.length_drop, List.length_cons]; omega

/-- The first `n` tokens; the end token repeats. -/
def take : Nat → Scanner → List Token
  | 0, _ => []
  | n + 1, s => s.next.1 :: take n s.next.2

end Scanner

/-- Cuts a source text into tokens, the last of which is the end. -/
def tokenize (source : String) : List Token := (Scanner.ofString source).tokens

end CornerPoint.Source
