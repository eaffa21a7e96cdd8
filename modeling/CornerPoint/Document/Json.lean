import CornerPoint.Number.Style
import CornerPoint.Text.Quoted

/-!
# JSON documents

The fields of an object keep the order in which they are given. Numbers are doubles, or
naturals where offsets and counts are meant. `Json.pretty` writes a document over several
lines, indented by two blanks; empty arrays and objects stay on one line.
-/

namespace CornerPoint

/-- A JSON document. -/
inductive Json where
  | null
  | bool (value : Bool)
  | natural (value : Nat)
  | number (value : Float)
  | string (value : String)
  | array (items : List Json)
  | object (fields : List (String × Json))

namespace Json

/-- A value that may be missing; it is null then. -/
def ofOption {α : Type} (encode : α → Json) : Option α → Json
  | none => .null
  | some a => encode a

/-- A list of values. -/
def ofList {α : Type} (encode : α → Json) (as : List α) : Json := .array (as.map encode)

/-- A double. JSON has no word for what is not finite. -/
def numberText (x : Float) : String :=
  if x.isFinite then Double.styled .json x else "null"

/-- A new line, indented. -/
def newline (indent : Nat) : String := "\n" ++ "".pushn ' ' (2 * indent)

mutual

/-- The document over several lines; all but the first are indented by `indent` steps. -/
def prettyAt (indent : Nat) : Json → String
  | .null => "null"
  | .bool value => if value then "true" else "false"
  | .natural value => toString value
  | .number value => numberText value
  | .string value => Text.quoteJson value
  | .array [] => "[]"
  | .array (item :: items) =>
    "[" ++ newline (indent + 1) ++ prettyAt (indent + 1) item ++ prettyItems (indent + 1) items
      ++ newline indent ++ "]"
  | .object [] => "\x7b\x7d"
  | .object ((key, value) :: fields) =>
    "\x7b" ++ newline (indent + 1) ++ Text.quoteJson key ++ ": " ++ prettyAt (indent + 1) value
      ++ prettyFields (indent + 1) fields ++ newline indent ++ "\x7d"

/-- The items behind the first one. -/
def prettyItems (indent : Nat) : List Json → String
  | [] => ""
  | item :: items => "," ++ newline indent ++ prettyAt indent item ++ prettyItems indent items

/-- The fields behind the first one. -/
def prettyFields (indent : Nat) : List (String × Json) → String
  | [] => ""
  | (key, value) :: fields =>
    "," ++ newline indent ++ Text.quoteJson key ++ ": " ++ prettyAt indent value
      ++ prettyFields indent fields

end

/-- The document over several lines. -/
def pretty (j : Json) : String := j.prettyAt 0

end Json

end CornerPoint
